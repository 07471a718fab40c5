import RsyncRs.Fs.Data
import RsyncRs.Fs.Substitute
import RsyncRs.Fs.Temporary

/-!
# Places that paths name

While files are written, linked and removed at a few places, a path names no place that it did not
name at the start, except for those few. So a file elsewhere is left as it is.
-/

namespace Disk

variable {m : Watch UInt8 FsReply Error (Endpoint Disk UInt8)} {closed : Bool}
  {X : Set Location} {d d' d₀ d₁ : Disk} {l x : Location} {p q tmp dest ldPath : FsPath}
  {last : Bool}
  {data held : List UInt8} {c : Option (List UInt8)} {E : Disk → Prop}

/-- The paths name the places that they name in the first file system, and those in `X`. -/
def NamesFrom (X : Set Location) (d₀ d : Disk) : Prop :=
  ∀ last p l, FsPath.resolve d.shape d.cwd last p = some l →
    FsPath.resolve d₀.shape d₀.cwd last p = some l ∨ l ∈ X

theorem NamesFrom.congr
    (h : NamesFrom X d₀ d) (hshape : d'.shape = d.shape) (hcwd : d'.cwd = d.cwd) :
  NamesFrom X d₀ d'
  := by
  intro last p l hl
  rw [hshape, hcwd] at hl
  exact h last p l hl

theorem NamesFrom.unlink
    {inode : Inode} (h : NamesFrom X d₀ d) (hl : l ∈ X) (hinode : d.inode? l = some inode)
    (hkind : inode.kind ≠ .dir) :
  NamesFrom X d₀ (d.unlink (· = l))
  := by
  intro last p l' hl'
  by_cases heq : l' = l
  · exact Or.inr (heq ▸ hl)
  · exact h last p l' (resolve_cleared hinode hkind hl' heq)

/-- Paths do not meet a file that is put where nothing is. -/
theorem shape_link_leaf
    {i : ℕ} (hnone : d.inode? l = none) (hi : i < d.next)
    (hkind : (d.inodes i).kind.shape = .leaf) :
  (d.link l i hi).shape = d.shape
  := by
  funext l'
  by_cases heq : l' = l
  · have hnodes : (d.link l i hi).nodes l = some i := if_pos rfl
    have hroot := (inode?_eq_none_iff.mp hnone).1
    rw [heq, shape_of_none hnone, shape_of_inode? (inode?_of_nodes hroot hnodes)]
    exact hkind
  · exact (ChangedAt.link d l i hi).shape_eq heq

theorem cwd_writeAt
    {perm : Option (Fin 4096)} {new : List UInt8} (h : d.writeAt l perm new = some d') :
  d'.cwd = d.cwd
  := by
  rcases writeAt_cases h with ⟨-, inode, -, rfl⟩ | ⟨i, old, f, -, -, -, -, rfl⟩ | ⟨rfl, -⟩
  · rfl
  · rfl
  · rfl

/-- Paths do not meet what is written. -/
theorem shape_writeAt
    {perm : Option (Fin 4096)} {new : List UInt8} (h : d.writeAt l perm new = some d') :
  d'.shape = d.shape
  := by
  rcases writeAt_cases h with ⟨hnone, inode, hkind, rfl⟩ | ⟨i, old, f, hroot, hi, hold, hf, rfl⟩ |
    ⟨rfl, -⟩
  · funext l'
    by_cases heq : l' = l
    · have hnodes : (d.create l inode).nodes l = some d.next := if_pos rfl
      rw [heq, shape_of_none hnone,
        shape_of_inode? (inode?_of_nodes (inode?_eq_none_iff.mp hnone).1 hnodes), create_inodes,
        if_pos rfl, hkind]
      rfl
    · exact (ChangedAt.create d l inode).shape_eq heq
  · apply shape_edit
    rw [hf, hold]
    rfl
  · rfl

/-- A path that leads to what is written names no directory. -/
theorem noDirAt_written
    {perm : Option (Fin 4096)} {new : List UInt8} (hl : d.place p = some l)
    (h : d.writeAt l perm new = some d') :
  NoDirAt d' p
  := by
  obtain ⟨l', hl', hplain⟩ := exists_lplace hl
  by_cases hlink : ∃ target, d.shape l' = .link target
  · obtain ⟨target, hshape⟩ := hlink
    have hshape' : d'.shape l' = .link target := by rw [shape_writeAt h, hshape]
    obtain ⟨inode, hinode⟩ : ∃ inode, d'.inode? l' = some inode := by
      apply Option.ne_none_iff_exists'.mp
      apply inode?_ne_none_of_shape
      rw [hshape']
      rintro ⟨⟩
    refine ⟨l', inode, ?_, hinode, fun hdir => ?_⟩
    · rw [lplace, shape_writeAt h, cwd_writeAt h]
      exact hl'
    · rw [shape_of_inode? hinode, hdir] at hshape'
      cases hshape'
  · cases hplain fun target hshape => hlink ⟨target, hshape⟩
    exact noDirAt_writeAt hl' h

/-- What is written to the path is not written to the place `x`. -/
def WritesAside (d : Disk) (p : FsPath) (x : Location) : Prop :=
  ∀ y, d.place p = some y → x ≠ y ∧ ∀ i, d.nodes y = some i → d.nodes x ≠ some i

namespace WritesAside

/-- What is written to the path goes on to be written to another file. -/
theorem writeAt
    {perm : Option (Fin 4096)} {new : List UInt8} (h : WritesAside d p x) (hl : d.place p = some l)
    (hwrite : d.writeAt l perm new = some d') :
  WritesAside d' p x
  := by
  intro y hy
  rw [place, shape_writeAt hwrite, cwd_writeAt hwrite] at hy
  cases hl.symm.trans hy
  obtain ⟨hne, hother⟩ := h l hl
  refine ⟨hne, fun i hi hx => ?_⟩
  rcases writeAt_cases hwrite with ⟨-, inode, -, rfl⟩ | ⟨_, _, _, -, -, -, -, rfl⟩ | ⟨rfl, -⟩
  · rw [create_nodes, if_pos rfl] at hi
    cases hi
    rw [create_nodes, if_neg hne] at hx
    exact lt_irrefl _ (d.used x _ hx)
  · exact hother i hi hx
  · exact hother i hi hx

/-- Where what the path names has been removed, it leads to nothing. -/
theorem unlink
    {inode : Inode} (hne : x ≠ l) (hl : d.lplace p = some l) (hinode : d.inode? l = some inode)
    (hkind : inode.kind ≠ .dir) :
  WritesAside (d.unlink (· = l)) p x
  := by
  intro y hy
  cases FsPath.resolve_leaf (shape_cleared hinode hkind)
    (fun _ hne => (ChangedAt.unlink d l).shape_eq hne) hl hy
  refine ⟨hne, fun i hi => ?_⟩
  have hgone : (d.unlink (· = l)).nodes l = none := if_pos (decide_eq_true rfl)
  cases hgone.symm.trans hi

/-- A path whose file is written elsewhere names no regular file itself. -/
theorem dataAt_eq_none
    (h : WritesAside d p x) (hl : d.lplace p = some x) :
  d.dataAt x = none
  := by
  cases hdata : d.dataAt x with
  | none => rfl
  | some data =>
      have hleaf : d.shape x = .leaf := by
        rw [shape_eq_kindAt, dataAt_eq_some_iff.mp hdata]
        rfl
      exact absurd rfl (h x (FsPath.resolve_final hleaf hl)).1

end WritesAside

/-- The regular file at the place `x` holds `c`, and paths name what they named. -/
structure Leaving (X : Set Location) (x : Location) (c : Option (List UInt8)) (d₀ d : Disk) :
    Prop where
  names : NamesFrom X d₀ d
  data : d.dataAt x = c

namespace Leaving

theorem tick
    (h : Leaving X x c d₀ d) :
  Leaving X x c d₀ d.tick
  := ⟨h.names, h.data⟩

theorem refl
    (h : d.dataAt x = c) :
  Leaving X x c d d
  := ⟨fun _ _ _ hl => Or.inl hl, h⟩

theorem unlink
    {inode : Inode} (h : Leaving X x c d₀ d) (hl : l ∈ X) (hne : x ≠ l)
    (hinode : d.inode? l = some inode) (hkind : inode.kind ≠ .dir) :
  Leaving X x c d₀ (d.unlink (· = l))
  := ⟨h.names.unlink hl hinode hkind, ((ChangedAt.unlink d l).dataAt_eq hne).trans h.data⟩

/-- A file is put where nothing is, and paths go on to end there. -/
theorem link
    {i : ℕ} (h : Leaving X x c d₀ d) (hne : x ≠ l) (hnone : d.inode? l = none) (hi : i < d.next)
    (hkind : (d.inodes i).kind.shape = .leaf) :
  Leaving X x c d₀ (d.link l i hi)
  := ⟨h.names.congr (shape_link_leaf hnone hi hkind) rfl,
    ((ChangedAt.link d l i hi).dataAt_eq hne).trans h.data⟩

/-- What is written to another file. -/
theorem writeAt
    {perm : Option (Fin 4096)} {new : List UInt8} (h : Leaving X x c d₀ d) (hne : x ≠ l)
    (hother : ∀ i, d.nodes l = some i → d.nodes x ≠ some i)
    (hwrite : d.writeAt l perm new = some d') :
  Leaving X x c d₀ d'
  := ⟨h.names.congr (shape_writeAt hwrite) (cwd_writeAt hwrite),
    (dataAt_writeAt hne hother hwrite).trans h.data⟩

end Leaving

/-! ### Links under a temporary name -/

/-- A path that names a file goes on to name it. -/
theorem Grows.fileOf
    {kind : FileKind} (h : Grows d d') (hkind : d.fileOf p = some kind) :
  d'.fileOf p = some kind
  := by
  obtain ⟨l, hl, hat, hdir⟩ := fileOf_eq_some hkind
  rw [Disk.fileOf, h.lplace_eq hl, Option.bind_some, h.kindAt hat, Option.filter_some,
    if_pos (decide_eq_true hdir)]

theorem IsFileAt.fileOf
    (h : IsFileAt d p) :
  ∃ data, d.fileOf p = some (.file data)
  := by
  obtain ⟨l, inode, data, hl, hinode, hkind⟩ := h
  refine ⟨data, ?_⟩
  rw [Disk.fileOf, hl, Option.bind_some, Disk.kindAt, hinode, Option.map_some, hkind]
  rfl

/-- The path names a regular file that holds the data, or nothing. -/
def MayHold (d : Disk) (p : FsPath) (held : List UInt8) : Prop :=
  ∀ l kind, d.lplace p = some l → d.kindAt l = some kind → kind = .file held

namespace MayHold

theorem of_fileOf
    (h : d.fileOf p = some (.file data)) :
  MayHold d p data
  := by
  intro l kind hl hkind
  obtain ⟨l', hl', hfile, -⟩ := fileOf_eq_some h
  cases hl.symm.trans hl'
  exact Option.some.inj (hkind.symm.trans hfile)

theorem unlink
    {inode : Inode} (h : MayHold d p held) (hinode : d.inode? l = some inode)
    (hkind : inode.kind ≠ .dir) :
  MayHold (d.unlink (· = l)) p held
  := by
  intro l' kind hl' hkind'
  have hne : l' ≠ l := by
    rintro rfl
    cases (kindAt_cleared hinode hkind).symm.trans hkind'
  rw [(ChangedAt.unlink d l).kindAt_eq hne] at hkind'
  exact h l' kind (resolve_cleared hinode hkind hl' hne) hkind'

/-- What is linked holds what the file does that it is linked to. -/
theorem link
    (h : MayHold d p held) (hlink : d.hardLink p q = some d') :
  ∃ dst i, ∃ hi : i < d.next, d.lplace q = some dst ∧ d.inode? dst = none ∧
    (d.inodes i).kind = .file held ∧ d' = d.link dst i hi ∧ d'.kindAt dst = some (.file held)
  := by
  obtain ⟨s, inode, dst, i, hi, hs, hinode, hdst, hnode, hkind, hnone, rfl⟩ := hardLink_cases hlink
  have hsKind : d.kindAt s = some inode.kind := congrArg (Option.map Inode.kind) hinode
  obtain ⟨-, j, hj, hjkind⟩ := kindAt_ne_dir hsKind hkind
  cases hnode.symm.trans hj
  have hheld : (d.inodes i).kind = .file held := hjkind.trans (h s inode.kind hs hsKind)
  have hnodes : (d.link dst i hi).nodes dst = some i := if_pos rfl
  refine ⟨dst, i, hi, hdst, hnone, hheld, rfl, ?_⟩
  rw [kindAt_of_nodes (inode?_eq_none_iff.mp hnone).1 hnodes]
  exact congrArg some hheld

end MayHold

/-- A link is put in the place that has been cleared, to a file that holds the same. -/
theorem dataAt_relinked
    {r : Except String Unit} (hx : d.dataAt x = some data)
    (hsame : d.lplace p ≠ some x ∨ d.fileOf ldPath = some (.file data))
    (hremove : d.answer (.removeFile p) = some (r, d₁))
    (hlink : d₁.answer (.hardLink ldPath p) = some (.ok (), d')) :
  d'.dataAt x = some data
  := by
  have hkeep : ∀ {d₁ d₂ : Disk}, d₁.dataAt x = some data → d₁.hardLink ldPath p = some d₂ →
      d₂.dataAt x = some data := by
    intro d₁ d₂ hx hlink
    obtain ⟨_, _, dst, i, hi, -, -, -, -, -, hnone, rfl⟩ := hardLink_cases hlink
    have hne : x ≠ dst := by
      rintro rfl
      cases (dataAt_of_none hnone).symm.trans hx
    exact ((ChangedAt.link d₁ dst i hi).dataAt_eq hne).trans hx
  have hstart : d.tick.dataAt x = some data := hx
  rcases modify_cases (d := d₁) (e := d₁.hardLink ldPath p) hlink with
    ⟨d₂, hmade, -, rfl⟩ | ⟨⟨_, herror⟩, -⟩
  · suffices h : d₂.dataAt x = some data from h
    rcases modify_cases (d := d) (e := d.removeFile p) hremove with
      ⟨d₃, hremoved, -, rfl⟩ | ⟨-, rfl⟩
    · obtain ⟨l, inode, hl, hinode, hkind, rfl⟩ := removeFile_cases hremoved
      by_cases heq : x = l
      · subst heq
        have hfile := hsame.resolve_left (not_not.mpr hl)
        have hmay : MayHold (d.unlink (· = x)).tick ldPath data :=
          (MayHold.of_fileOf hfile).unlink hinode hkind
        obtain ⟨dst, _, _, hdst, -, -, -, hkindAt⟩ := hmay.link hmade
        have hnamed : x = dst := by
          by_contra hne
          have hdst : d.lplace p = some dst := resolve_cleared hinode hkind hdst (Ne.symm hne)
          exact hne (Option.some.inj (hl.symm.trans hdst))
        subst hnamed
        exact dataAt_eq_some_iff.mpr hkindAt
      · have hleft : (d.unlink (· = l)).tick.dataAt x = some data :=
          ((ChangedAt.unlink d l).dataAt_eq heq).trans hx
        exact hkeep hleft hmade
    · exact hkeep hstart hmade
  · cases herror

namespace Moves

/-- What is under the name of a temporary file is removed. -/
theorem clearTmp
    (hX : ∀ l, d₀.lplace tmp = some l → l ∈ X) (hx : x ∉ X) :
  Moves m closed (Leaving X x c d₀) (Fs.orIgnore (Fs.removeFile tmp)) (fun _ => Leaving X x c d₀) E
  := by
  apply orIgnore
  apply removeFile
  · intro d d' hd hremove
    obtain ⟨l, inode, hl, hinode, hkind, rfl⟩ := removeFile_cases hremove
    have hmem : l ∈ X := (hd.names false tmp l hl).elim (hX l) id
    exact (hd.unlink hmem (fun heq => hx (heq ▸ hmem)) hinode hkind).tick
  · exact fun d msg hd => hd.tick

/-- What is to be linked to holds what it held, when it is not what is removed. -/
theorem clearTmp_mayHold
    (hX : ∀ l, d₀.lplace tmp = some l → l ∈ X) (hx : x ∉ X) :
  Moves m closed (fun d => Leaving X x c d₀ d ∧ MayHold d ldPath held)
    (Fs.orIgnore (Fs.removeFile tmp)) (fun _ d => Leaving X x c d₀ d ∧ MayHold d ldPath held) E
  := by
  apply orIgnore
  apply removeFile
  · rintro d d' ⟨hd, hmay⟩ hremove
    obtain ⟨l, inode, hl, hinode, hkind, rfl⟩ := removeFile_cases hremove
    have hmem : l ∈ X := (hd.names false tmp l hl).elim (hX l) id
    exact ⟨(hd.unlink hmem (fun heq => hx (heq ▸ hmem)) hinode hkind).tick,
      hmay.unlink hinode hkind⟩
  · exact fun d msg hd => ⟨hd.1.tick, hd.2⟩

/-- A file is linked under a temporary name. -/
theorem linkHeld
    (hX : ∀ l, d₀.lplace tmp = some l → l ∈ X) (hx : x ∉ X) :
  Moves m closed (fun d => Leaving X x c d₀ d ∧ MayHold d ldPath held) (Fs.hardLink ldPath tmp)
    (fun r d => Leaving X x c d₀ d ∧ (r = .ok () → MayHold d tmp held)) E
  := by
  apply hardLink
  · rintro d d' ⟨hd, hmay⟩ hlink
    obtain ⟨dst, i, hi, hdst, hnone, hkind, rfl, hkindAt⟩ := hmay.link hlink
    have hmem : dst ∈ X := (hd.names false tmp dst hdst).elim (hX dst) id
    have hleaf : (d.inodes i).kind.shape = .leaf := by
      rw [hkind]
      rfl
    refine ⟨(hd.link (fun heq => hx (heq ▸ hmem)) hnone hi hleaf).tick, fun _ l kind hl hk => ?_⟩
    have hl' : (d.link dst i hi).lplace tmp = some l := hl
    rw [lplace, shape_link_leaf hnone hi hleaf] at hl'
    cases hdst.symm.trans hl'
    exact Option.some.inj (hk.symm.trans hkindAt)
  · exact fun d msg hd => ⟨hd.1.tick, fun h => by cases h⟩

/-- What is renamed to another place, or holds what the file there does. -/
theorem renameHeld
    (hX : ∀ l, d₀.lplace tmp = some l → l ∈ X) (hx : x ∉ X) :
  Moves m closed (fun d => Leaving X x c d₀ d ∧ MayHold d tmp held) (Fs.rename tmp dest)
    (fun r d => (r = .ok () → d₀.lplace dest ≠ some x ∨ c = some held → d.dataAt x = c) ∧
      (r ≠ .ok () → Leaving X x c d₀ d)) E
  := by
  apply rename
  · rintro d d' ⟨hd, hmay⟩ hrename
    refine ⟨fun _ hdest => ?_, fun h => absurd rfl h⟩
    obtain ⟨y, inode, dst, hy, hinode, hdst, hyRoot, hdstRoot, hcases⟩ := rename_cases hrename
    have hyKind : d.kindAt y = some inode.kind := congrArg (Option.map Inode.kind) hinode
    have hheld := hmay y inode.kind hy hyKind
    rcases hcases with ⟨-, rfl⟩ | ⟨-, -, ⟨-, rfl⟩ | ⟨hdir, -⟩⟩
    · exact hd.data
    · have hmem : y ∈ X := (hd.names false tmp y hy).elim (hX y) id
      have hne : x ≠ y := fun heq => hx (heq ▸ hmem)
      have hmoved : (d.moveFile y dst).dataAt x = c := by
        by_cases heq : x = dst
        · have hnamed : d₀.lplace dest = some x := by
            rw [heq]
            exact (hd.names false dest dst hdst).resolve_right fun h => hx (heq ▸ h)
          rw [hdest.resolve_left (not_not.mpr hnamed), heq, dataAt_eq_some_iff,
            kindAt_moveFile hyRoot hdstRoot, hyKind, hheld]
        · rw [dataAt_moveFile (fun h => absurd h hne) heq, hd.data]
      exact hmoved
    · cases hheld.symm.trans hdir
  · exact fun d msg hd => ⟨nofun, fun _ => hd.1.tick⟩

end Moves

end Disk
