import RsyncRs.Bytes

/-!
# Protocol constants and types

The numbers and the records shared by the stages of a transfer. Names and paths are the
bytes of the strings of the program.
-/

/-! ### Constants -/

/-- The version that is spoken. -/
def protocolVersion : ℕ := 31

/-- The smallest block length. -/
def blockSize : ℤ := 700

/-- The largest block length. -/
def maxBlockSize : ℤ := 131072

/-- The largest literal in one token. -/
def chunkSize : ℕ := 32768

/-- The index that ends a phase. -/
def ndxDone : ℤ := -1

/-- A basis type follows the item flags. -/
def itemBasisTypeFollows : ℕ := 2048

/-- A name follows the item flags. -/
def itemXnameFollows : ℕ := 4096

/-- The item asks for the data of the file. -/
def itemTransfer : ℕ := 32768

/-- Checksum type of the protocol. -/
inductive CsumType where
  | none
  | md4Archaic
  | md4Busted
  | md4Old
  | md4
  | md5
  | sha1
  | sha256
  | sha512
  | xxh64
  | xxh3_64
  | xxh3_128
deriving DecidableEq, Repr

/-! ### Errors -/

/-- How a procedure of the program fails. A panic ends the process, every other failure is a
value which callers may inspect. -/
inductive Error where
  /-- The input ended inside a value. -/
  | unexpectedEof
  /-- The peer closed the channel. -/
  | brokenPipe
  /-- A call to the system failed. -/
  | io (message : String)
  /-- A failure with the given message. -/
  | other (message : String)
  /-- The process panicked with the given message. -/
  | panic (message : String)
deriving DecidableEq, Repr

/-- A computation that succeeded goes on. -/
@[simp]
theorem ok_bind
    {α β : Type} (a : α) (f : α → Except Error β) :
  (Except.ok a >>= f) = f a
  := rfl

/-- A computation that succeeds has first parts that do. -/
theorem ok_of_bind
    {α β : Type} {x : Except Error α} {f : α → Except Error β} {b : β}
    (h : (x >>= f) = .ok b) :
  ∃ a, x = .ok a ∧ f a = .ok b
  := by
  cases x with
  | error e => cases h
  | ok a => exact ⟨a, rfl, h⟩

/-! ### Files and file lists -/

/-- The bytes of a name or of a path. -/
abbrev Name := List UInt8

/-- File type. -/
inductive FileType where
  | regular
  | dir
  | symlink
  | device
  | special
deriving DecidableEq, Repr

/-- The file type in the mode of a file. -/
def FileType.fromMode (mode : ℕ) : FileType :=
  match mode &&& 0o170000 with
  | 0o040000 => .dir
  | 0o120000 => .symlink
  | 0o060000 => .device
  | 0o020000 => .device
  | 0o010000 => .special
  | 0o140000 => .special
  | 0o050000 => .special
  | _ => .regular

/-- All that a file list says about one file. -/
structure FileInfo where
  /-- Base name. -/
  name : Name := []
  /-- Path of the parent directory. -/
  dirname : Option Name := none
  /-- Modification time in seconds. -/
  modtime : ℤ := 0
  /-- The rest of the modification time in nanoseconds. -/
  modNsec : ℕ := 0
  /-- Size in bytes. -/
  size : ℤ := 0
  /-- File type and permissions. -/
  mode : ℕ := 0
  /-- Internal flags. -/
  flags : ℕ := 0
  /-- Owner. -/
  uid : ℕ := 0
  /-- Group. -/
  gid : ℕ := 0
  /-- Target of a symbolic link. -/
  linkTarget : Option Name := none
  /-- Major number of a device. -/
  rdevMajor : ℕ := 0
  /-- Minor number of a device. -/
  rdevMinor : ℕ := 0
  /-- Index of the first file of a group of hard links, negative for other files. -/
  hardLinkFirstNdx : ℤ := 0
  /-- Device that the file is on. -/
  dev : ℕ := 0
  /-- Inode of the file. -/
  ino : ℕ := 0
  /-- Checksum of the content. -/
  checksum : Option (List UInt8) := none
deriving DecidableEq, Repr

namespace FileInfo

/-- The path of the file, relative to the root of the transfer. -/
def path (fi : FileInfo) : Name :=
  match fi.dirname with
  | some d => if d = [] then fi.name else d ++ bytesOf "/" ++ fi.name
  | none => fi.name

/-- File type. -/
def fileType (fi : FileInfo) : FileType :=
  FileType.fromMode fi.mode

/-- The file is a directory. -/
def isDir (fi : FileInfo) : Bool :=
  fi.fileType = .dir

/-- The file is a regular file. -/
def isRegular (fi : FileInfo) : Bool :=
  fi.fileType = .regular

/-- The file is a symbolic link. -/
def isSymlink (fi : FileInfo) : Bool :=
  fi.fileType = .symlink

end FileInfo

/-- The files of a transfer. -/
structure FileList where
  /-- The files in the order of their indices. -/
  files : List FileInfo := []
  /-- The order in which the files are sent. When it is empty they are sent as they stand. -/
  sorted : List ℕ := []
  /-- Index of the first file. -/
  ndxStart : ℤ := 0
deriving DecidableEq, Repr

/-- The file with the index `ndx`. -/
def FileList.getByNdx (flist : FileList) (ndx : ℤ) : Option FileInfo :=
  flist.files[asUsize (wrapI32 (ndx - flist.ndxStart))]?

/-! ### Checksums of blocks -/

/-- Checksums of one block. -/
structure SumBuf where
  /-- Offset of the block. -/
  offset : ℤ
  /-- Length of the block. -/
  len : ℤ
  /-- Rolling checksum. -/
  sum1 : UInt32
  /-- The leading bytes of the strong checksum. -/
  sum2 : List UInt8
deriving DecidableEq, Repr

/-- What is sent ahead of the checksums of the blocks. -/
structure SumHead where
  /-- Number of blocks. -/
  count : ℤ
  /-- Block length. -/
  blength : ℤ
  /-- Number of bytes of each strong checksum. -/
  s2length : ℤ
  /-- Length of the last block when it is shorter than the others, otherwise zero. -/
  remainder : ℤ
deriving DecidableEq, Repr

/-! ### Statistics -/

/-- Counters of a transfer. -/
structure Stats where
  /-- Total size of the files listed. -/
  totalSize : ℤ := 0
  /-- Bytes written. -/
  totalWritten : ℤ := 0
  /-- Bytes read. -/
  totalRead : ℤ := 0
  /-- Time to build the file list. -/
  flistBuildtime : ℤ := 0
  /-- Time to transfer the file list. -/
  flistXfertime : ℤ := 0
  /-- Files considered. -/
  numFiles : ℤ := 0
  /-- Files created. -/
  createdFiles : ℤ := 0
  /-- Files transferred. -/
  xferredFiles : ℤ := 0
deriving DecidableEq, Repr
