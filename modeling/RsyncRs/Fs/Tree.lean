import RsyncRs.Fs.Call
import RsyncRs.Fs.Locate
import RsyncRs.Utf8

/-!
# Trees of files

What a source names: a file, a link, or a directory with what is in it. Directories that cannot be
read, and entries about which nothing can be learnt, are among them.
-/

/-- A name in a directory. -/
abbrev EntryName := { name : Name // FsPath.IsName name }

/-- What is known of a file besides its type and its content. -/
structure Attrs where
  /-- Permissions. -/
  perm : Fin 4096 := 0o644
  /-- Size of what is not a regular file. -/
  len : ℕ := 0
  mtime : ℤ := 0
  mtimeNsec : ℕ := 0
  nlink : ℕ := 1
  uid : ℕ := 0
  gid : ℕ := 0
  dev : ℕ := 0
  ino : ℕ := 0
deriving DecidableEq, Repr

/-- The types of special files. -/
inductive SpecialKind where
  | fifo
  | socket
  | charDevice
  | blockDevice
deriving DecidableEq, Repr

/-- The bits of the type in the mode. -/
def SpecialKind.bits : SpecialKind → ℕ
  | fifo => 0o010000
  | socket => 0o140000
  | charDevice => 0o020000
  | blockDevice => 0o060000

/-- The type that the mode says. -/
def SpecialKind.fileType : SpecialKind → FileType
  | fifo | socket => .special
  | charDevice | blockDevice => .device

mutual

/-- A file. -/
inductive FsTree where
  /-- A regular file, which may not be readable. -/
  | file (attrs : Attrs) (data : List UInt8) (readable : Bool)
  /-- A link, whose target may not be readable. -/
  | symlink (attrs : Attrs) (target : Option FsPath)
  | special (attrs : Attrs) (kind : SpecialKind)
  | dir (attrs : Attrs) (entries : Entries)
  /-- A directory that cannot be read. -/
  | sealed (attrs : Attrs)
  /-- An entry about which nothing can be learnt, or which is lost while the directory is read. -/
  | hidden

/-- The entries of a directory, in the order in which they are read. -/
inductive Entries where
  | nil
  | cons (name : EntryName) (node : FsTree) (rest : Entries)

end

/-- The names of the entries. -/
def Entries.names : Entries → List Name
  | .nil => []
  | .cons name _ rest => name.1 :: rest.names

namespace FsTree

/-- The metadata of a file with attributes. -/
def metadataOf (attrs : Attrs) (bits len : ℕ) : Metadata where
  mode := bits ||| attrs.perm
  len
  mtime := attrs.mtime
  mtimeNsec := attrs.mtimeNsec
  nlink := attrs.nlink
  uid := attrs.uid
  gid := attrs.gid
  dev := attrs.dev
  ino := attrs.ino

/-- The bits of the type of a file in its mode. -/
def bits : FsTree → ℕ
  | file _ _ _ => 0o100000
  | symlink _ _ => 0o120000
  | special _ kind => kind.bits
  | dir _ _ | sealed _ => 0o040000
  | hidden => 0

/-- The metadata of a file, if it can be read. -/
def metadata (node : FsTree) : Option Metadata :=
  match node with
  | file attrs data _ => some (metadataOf attrs node.bits data.length)
  | symlink attrs _ | special attrs _ | dir attrs _ | sealed attrs =>
    some (metadataOf attrs node.bits attrs.len)
  | hidden => none

/-- File type. -/
def fileType : FsTree → FileType
  | symlink _ _ => .symlink
  | special _ kind => kind.fileType
  | dir _ _ | sealed _ => .dir
  | file _ _ _ | hidden => .regular

/-- The file is a directory. -/
def isDir (node : FsTree) : Bool :=
  node.fileType = .dir

/-- The file is a regular file. -/
def isFile (node : FsTree) : Bool :=
  node.fileType = .regular

/-- Permissions have no bits of the type. -/
theorem perm_and_type
    (perm : Fin 4096) :
  (perm : ℕ) &&& 0o170000 = 0
  := by
  apply Nat.eq_of_testBit_eq
  intro i
  rw [Nat.testBit_and, Nat.zero_testBit]
  by_cases hi : i < 12
  · have hbit : ∀ i < 12, Nat.testBit 0o170000 i = false := by decide
    rw [hbit i hi, Bool.and_false]
  · have hlt : (perm : ℕ) < 2 ^ i :=
      perm.isLt.trans_le (Nat.pow_le_pow_right (by decide : 0 < 2) (not_lt.mp hi))
    rw [Nat.testBit_lt_two_pow hlt, Bool.false_and]

/-- The type in a mode does not depend on the permissions. -/
theorem fromMode_or
    (bits : ℕ) (perm : Fin 4096) :
  FileType.fromMode (bits ||| perm) = FileType.fromMode bits
  := by
  unfold FileType.fromMode
  rw [Nat.and_or_distrib_right, perm_and_type, Nat.or_zero]

theorem fromMode_bits
    (node : FsTree) :
  FileType.fromMode node.bits = node.fileType
  := by
  cases node with
  | special attrs kind =>
      rw [bits, fileType]
      cases kind <;> decide
  | _ =>
      rw [bits, fileType]
      decide

/-- The metadata of a file say what type it has. -/
theorem fromMode_metadata
    {node : FsTree} {m : Metadata} (h : node.metadata = some m) :
  FileType.fromMode m.mode = node.fileType
  := by
  rw [← fromMode_bits]
  cases node with
  | hidden => cases h
  | _ =>
      cases h
      apply fromMode_or

theorem isDir_metadata
    {node : FsTree} {m : Metadata} (h : node.metadata = some m) :
  m.isDir = node.isDir
  := by
  rw [Metadata.isDir, fromMode_metadata h, isDir]

theorem isSymlink_metadata
    {node : FsTree} {m : Metadata} (h : node.metadata = some m) :
  m.isSymlink = decide (node.fileType = .symlink)
  := by
  rw [Metadata.isSymlink, fromMode_metadata h]

theorem isFile_metadata
    {node : FsTree} {m : Metadata} (h : node.metadata = some m) :
  m.isFile = node.isFile
  := by
  rw [Metadata.isFile, fromMode_metadata h, isFile]

end FsTree
