import RsyncRs.Fs.OnePlace

/-!
# What regular files hold

What the regular file at a place holds changes only where that file is written to, and where
another one is put in its place or it is taken away.
-/

namespace Disk

variable {d d' : Disk} {x l src dst : Location} {data : List UInt8} {inode : Inode}

/-- What the regular file at a place holds. -/
def dataAt (d : Disk) (x : Location) : Option (List UInt8) :=
  match d.kindAt x with
  | some (.file data) => some data
  | _ => none

theorem dataAt_eq_some_iff :
  d.dataAt x = some data ↔ d.kindAt x = some (.file data)
  := by
  unfold dataAt
  split
  · next data' hkind => rw [hkind, Option.some_inj, Option.some_inj, FileKind.file.injEq]
  · next hother => exact iff_of_false nofun (hother data)

theorem Grows.kindAt
    {kind : FileKind} (h : Grows d d') (hkind : d.kindAt x = some kind) :
  d'.kindAt x = some kind
  := (Kept.of_grows {x} h).kindAt (Set.mem_singleton x) hkind

theorem dataAt_congr
    (h : d'.kindAt x = d.kindAt x) :
  d'.dataAt x = d.dataAt x
  := by
  rw [dataAt, dataAt, h]

theorem dataAt_of_kindAt
    {kind : FileKind} (h : d.kindAt x = some kind) (hkind : ∀ data, kind ≠ .file data) :
  d.dataAt x = none
  := by
  cases hdata : d.dataAt x with
  | none => rfl
  | some data =>
      cases h.symm.trans (dataAt_eq_some_iff.mp hdata)
      exact absurd rfl (hkind data)

theorem dataAt_of_none
    (h : d.inode? x = none) :
  d.dataAt x = none
  := by
  rw [dataAt, kindAt_eq_none_iff.mpr h]

theorem ChangedAt.dataAt_eq
    (h : ChangedAt l d d') (hne : x ≠ l) :
  d'.dataAt x = d.dataAt x
  := dataAt_congr (h.kindAt_eq hne)

theorem kindAt_edit
    {i : ℕ} {f : Inode → Inode}
    (hf : d.nodes x = some i → (f (d.inodes i)).kind = (d.inodes i).kind) :
  (d.edit i f).kindAt x = d.kindAt x
  := by
  by_cases hroot : x = []
  · rw [hroot]
    rfl
  cases hnodes : d.nodes x with
  | none =>
      have hnodes' : (d.edit i f).nodes x = none := hnodes
      rw [kindAt_eq_none_iff.mpr (inode?_eq_none_iff.mpr ⟨hroot, hnodes'⟩),
        kindAt_eq_none_iff.mpr (inode?_eq_none_iff.mpr ⟨hroot, hnodes⟩)]
  | some j =>
      have hnodes' : (d.edit i f).nodes x = some j := hnodes
      rw [kindAt_of_nodes hroot hnodes', kindAt_of_nodes hroot hnodes, edit_inodes]
      split
      · next heq =>
        subst heq
        exact congrArg some (hf hnodes)
      · rfl

/-- What is put where nothing is, unless it is a regular file. -/
theorem dataAt_create
    (hnone : d.inode? l = none) (hkind : ∀ data, inode.kind ≠ .file data) :
  (d.create l inode).dataAt x = d.dataAt x
  := by
  by_cases hne : x = l
  · subst hne
    have hroot := (inode?_eq_none_iff.mp hnone).1
    have hnodes : (d.create x inode).nodes x = some d.next := if_pos rfl
    have hnew : (d.create x inode).kindAt x = some inode.kind := by
      rw [kindAt_of_nodes hroot hnodes, create_inodes, if_pos rfl]
    rw [dataAt_of_none hnone, dataAt_of_kindAt hnew hkind]
  · exact (ChangedAt.create d l inode).dataAt_eq hne

/-- What is written to another file. -/
theorem dataAt_writeAt
    {perm : Option (Fin 4096)} (hne : x ≠ l) (hother : ∀ i, d.nodes l = some i → d.nodes x ≠ some i)
    (h : d.writeAt l perm data = some d') :
  d'.dataAt x = d.dataAt x
  := by
  rcases writeAt_cases h with ⟨-, inode, -, rfl⟩ | ⟨i, _, f, -, hi, -, -, rfl⟩ | ⟨rfl, -⟩
  · exact (ChangedAt.create d l inode).dataAt_eq hne
  · exact dataAt_congr (kindAt_edit fun hx => absurd hx (hother i hi))
  · rfl

theorem dataAt_unlink
    (h : x = l → d.dataAt x = none) :
  (d.unlink (· = l)).dataAt x = d.dataAt x
  := by
  by_cases hne : x = l
  · rw [h hne]
    by_cases hroot : x = []
    · subst hroot
      rfl
    · have hnodes : (d.unlink (· = l)).nodes x = none := if_pos (decide_eq_true hne)
      exact dataAt_of_none (inode?_eq_none_iff.mpr ⟨hroot, hnodes⟩)
  · exact (ChangedAt.unlink d l).dataAt_eq hne

theorem dataAt_moveFile
    (hsrc : x = src → d.dataAt x = none) (hdst : x ≠ dst) :
  (d.moveFile src dst).dataAt x = d.dataAt x
  := by
  by_cases hne : x = src
  · rw [hsrc hne]
    by_cases hroot : x = []
    · subst hroot
      rfl
    · have hnodes : (d.moveFile src dst).nodes x = none := by
        rw [moveFile_nodes, if_neg hdst, if_pos hne]
      exact dataAt_of_none (inode?_eq_none_iff.mpr ⟨hroot, hnodes⟩)
  · exact dataAt_congr (kindAt_moveFile_of_ne hne hdst)

theorem stable_dataAt
    (x : Location) (c : Option (List UInt8)) :
  Stable fun d => d.dataAt x = c
  where
  tick _ h := h
  dirs d p h := by
    apply createDirAll_keeps (J := fun d => d.dataAt x = c) ?_ h
    intro d' l inode hd hnone hkind
    rw [dataAt_create hnone ?_, hd]
    intro data
    rw [hkind]
    rintro ⟨⟩
  edit d i f h hf := by
    rw [dataAt_congr (kindAt_edit fun _ => hf _), h]

end Disk
