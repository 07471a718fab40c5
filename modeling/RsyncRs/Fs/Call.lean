import RsyncRs.Fs.Path
import RsyncRs.Io.Varint

/-!
# Calls to the file system

The calls that the stages of a transfer make, and what they are answered.
-/

/-- There are permissions: they are the numbers below 4096. -/
instance neZero_perm :
  NeZero 4096
  := ⟨by decide⟩

/-- What the file system says about a file. -/
structure Metadata where
  /-- File type and permissions. -/
  mode : ℕ
  /-- Size in bytes. -/
  len : ℕ
  /-- Modification time in seconds. -/
  mtime : ℤ
  /-- The rest of the modification time in nanoseconds. -/
  mtimeNsec : ℕ := 0
  /-- Number of names. -/
  nlink : ℕ := 1
  /-- Owner. -/
  uid : ℕ := 0
  /-- Group. -/
  gid : ℕ := 0
  /-- Device that the file is on. -/
  dev : ℕ := 0
  /-- Inode of the file. -/
  ino : ℕ := 0
deriving DecidableEq, Repr

namespace Metadata

/-- The file is a directory. -/
def isDir (m : Metadata) : Bool :=
  FileType.fromMode m.mode = .dir

/-- The file is a regular file. -/
def isFile (m : Metadata) : Bool :=
  FileType.fromMode m.mode = .regular

/-- The file is a symbolic link. -/
def isSymlink (m : Metadata) : Bool :=
  FileType.fromMode m.mode = .symlink

end Metadata

/-- A call to the file system. -/
inductive FsCall where
  /-- Is there a file? -/
  | pathExists (path : FsPath)
  /-- What a file is, after symbolic links. -/
  | metadata (path : FsPath)
  /-- What a file is itself. -/
  | symlinkMetadata (path : FsPath)
  /-- The content of a file. -/
  | readFile (path : FsPath)
  /-- The names in a directory. -/
  | readDir (path : FsPath)
  /-- The target of a symbolic link. -/
  | readLink (path : FsPath)
  /-- Make a directory and those above it. -/
  | createDirAll (path : FsPath)
  /-- Open a file for writing, made or truncated. -/
  | createFile (path : FsPath)
  /-- Write to the file that was opened at `path`. -/
  | writeFile (path : FsPath) (data : List UInt8)
  /-- Give a file another name. -/
  | rename (src dst : FsPath)
  /-- Give a file one more name. -/
  | hardLink (src dst : FsPath)
  /-- Make a symbolic link. -/
  | symlink (target path : FsPath)
  /-- Copy a file. -/
  | copyFile (src dst : FsPath)
  /-- Remove a file. -/
  | removeFile (path : FsPath)
  /-- Remove an empty directory. -/
  | removeDir (path : FsPath)
  /-- Remove a directory with all that is in it. -/
  | removeDirAll (path : FsPath)
  /-- Set the permissions of a file. -/
  | setPermissions (path : FsPath) (mode : ℕ)
  /-- Set the times of a file. -/
  | setTimes (path : FsPath) (mtime : ℤ)
  /-- Set the times of a file or of a symbolic link itself. -/
  | setLinkTimes (path : FsPath) (mtime : ℤ) (mtimeNsec : ℕ)
  /-- Set the owner and the group of a file or of a symbolic link itself. -/
  | chown (path : FsPath) (uid gid : Option ℕ)
  /-- Give a file the extended attributes of another one. -/
  | copyXattrs (src dst : FsPath)
  /-- Change the working directory. -/
  | setCurrentDir (path : FsPath)
deriving DecidableEq, Repr

/-- What a call is answered: a question by its answer, every other call by whether it
succeeded. -/
abbrev FsReply : FsCall → Type
  | .pathExists _ => Bool
  | .metadata _ | .symlinkMetadata _ => Except String Metadata
  | .readFile _ => Except String (List UInt8)
  | .readDir _ => Except String (List Name)
  | .readLink _ => Except String FsPath
  | _ => Except String Unit

/-! ### Procedures that make one call -/

namespace Fs

/-- Is there a file? -/
def pathExists (path : FsPath) : Session FsReply Bool :=
  Proc.host (FsCall.pathExists path)

/-- What a file is, after symbolic links. -/
def metadata (path : FsPath) : Session FsReply (Except String Metadata) :=
  Proc.host (FsCall.metadata path)

/-- What a file is itself. -/
def symlinkMetadata (path : FsPath) : Session FsReply (Except String Metadata) :=
  Proc.host (FsCall.symlinkMetadata path)

/-- The content of a file. -/
def readFile (path : FsPath) : Session FsReply (Except String (List UInt8)) :=
  Proc.host (FsCall.readFile path)

/-- The names in a directory. -/
def readDir (path : FsPath) : Session FsReply (Except String (List Name)) :=
  Proc.host (FsCall.readDir path)

/-- The target of a symbolic link. -/
def readLink (path : FsPath) : Session FsReply (Except String FsPath) :=
  Proc.host (FsCall.readLink path)

/-- Make a directory and those above it. -/
def createDirAll (path : FsPath) : Session FsReply (Except String Unit) :=
  Proc.host (FsCall.createDirAll path)

/-- Open a file for writing, made or truncated. -/
def createFile (path : FsPath) : Session FsReply (Except String Unit) :=
  Proc.host (FsCall.createFile path)

/-- Write to the file that was opened at `path`. -/
def writeFile (path : FsPath) (data : List UInt8) : Session FsReply (Except String Unit) :=
  Proc.host (FsCall.writeFile path data)

/-- Give a file another name. -/
def rename (src dst : FsPath) : Session FsReply (Except String Unit) :=
  Proc.host (FsCall.rename src dst)

/-- Give a file one more name. -/
def hardLink (src dst : FsPath) : Session FsReply (Except String Unit) :=
  Proc.host (FsCall.hardLink src dst)

/-- Make a symbolic link. -/
def symlink (target path : FsPath) : Session FsReply (Except String Unit) :=
  Proc.host (FsCall.symlink target path)

/-- Copy a file. -/
def copyFile (src dst : FsPath) : Session FsReply (Except String Unit) :=
  Proc.host (FsCall.copyFile src dst)

/-- Remove a file. -/
def removeFile (path : FsPath) : Session FsReply (Except String Unit) :=
  Proc.host (FsCall.removeFile path)

/-- Remove an empty directory. -/
def removeDir (path : FsPath) : Session FsReply (Except String Unit) :=
  Proc.host (FsCall.removeDir path)

/-- Remove a directory with all that is in it. -/
def removeDirAll (path : FsPath) : Session FsReply (Except String Unit) :=
  Proc.host (FsCall.removeDirAll path)

/-- Set the permissions of a file. -/
def setPermissions (path : FsPath) (mode : ℕ) : Session FsReply (Except String Unit) :=
  Proc.host (FsCall.setPermissions path mode)

/-- Set the times of a file. -/
def setTimes (path : FsPath) (mtime : ℤ) : Session FsReply (Except String Unit) :=
  Proc.host (FsCall.setTimes path mtime)

/-- Set the times of a file or of a symbolic link itself. -/
def setLinkTimes (path : FsPath) (mtime : ℤ) (mtimeNsec : ℕ) :
    Session FsReply (Except String Unit) :=
  Proc.host (FsCall.setLinkTimes path mtime mtimeNsec)

/-- Set the owner and the group of a file or of a symbolic link itself. -/
def chown (path : FsPath) (uid gid : Option ℕ) : Session FsReply (Except String Unit) :=
  Proc.host (FsCall.chown path uid gid)

/-- Give a file the extended attributes of another one. -/
def copyXattrs (src dst : FsPath) : Session FsReply (Except String Unit) :=
  Proc.host (FsCall.copyXattrs src dst)

/-- Change the working directory. -/
def setCurrentDir (path : FsPath) : Session FsReply (Except String Unit) :=
  Proc.host (FsCall.setCurrentDir path)

/-- Go on with what a call was answered, or fail as it did. -/
def orFail {α : Type} (p : Session FsReply (Except String α)) : Session FsReply α := do
  match ← p with
  | .ok a => pure a
  | .error e => throw (.io e)

/-- Go on whether or not a call succeeded. -/
def orIgnore {α : Type} (p : Session FsReply (Except String α)) : Session FsReply Unit := do
  let _ ← p
  pure ()

end Fs

/-- The temporary name of a link that is to take the place of `dest`. -/
def linkTmp (dest : FsPath) : FsPath :=
  dest.withExtension (bytesOf "__ldtmp__")
