import RsyncRs.Fs.Resolve
import RsyncRs.Fs.Tree

/-!
# A file system

A file system has files with numbers, and places that they are linked to. A file may be linked to
several places. Each call takes effect as a whole or fails, except that the content of a file may
have been written in part when a call fails; which calls fail is not known.
-/

/-- What a file is. -/
inductive FileKind where
  | file (data : List UInt8)
  | dir
  | symlink (target : FsPath)
  | special (kind : SpecialKind)
deriving DecidableEq, Repr

/-- A file. -/
structure Inode where
  kind : FileKind
  /-- Permissions. -/
  perm : Fin 4096 := 0o644
  mtime : ℤ := 0
  mtimeNsec : ℕ := 0
  uid : ℕ := 0
  gid : ℕ := 0
deriving DecidableEq, Repr

/-- What a file is for the paths that meet it. -/
def FileKind.shape : FileKind → Shape
  | .dir => .dir
  | .symlink target => .link target
  | .file _ | .special _ => .leaf

/-- The file after `data` has been written to it. -/
def Inode.written (inode : Inode) (now : ℤ × ℕ) (data : List UInt8) : Inode :=
  { inode with kind := .file data, mtime := now.1, mtimeNsec := now.2 }

/-- A file system. -/
structure Disk where
  /-- The number of the file at a place. -/
  nodes : Location → Option ℕ
  /-- The file with a number. -/
  inodes : ℕ → Inode
  /-- The number of the next file. -/
  next : ℕ
  /-- The places where there may be files. -/
  places : List Location
  /-- The working directory. -/
  cwd : Location := []
  /-- Number of calls that have been made. -/
  calls : ℕ := 0
  /-- Whether a call fails, and how much it has written then. -/
  fault : ℕ → Option ℕ := fun _ => none
  /-- The time of a call. -/
  clock : ℕ → ℤ × ℕ := fun _ => (0, 0)
  used : ∀ l i, nodes l = some i → i < next
  listed : ∀ l, nodes l ≠ none → l ∈ places

namespace Disk

/-- A file system without files. -/
def blank : Disk where
  nodes := fun _ => none
  inodes := fun _ => { kind := .dir }
  next := 0
  places := []
  used := nofun
  listed := fun _ h => absurd rfl h

/-- The directory at the root. -/
def rootInode : Inode where
  kind := .dir
  perm := 0o755

/-- The file at a place. -/
def inode? (d : Disk) (l : Location) : Option Inode :=
  if l = [] then some rootInode else (d.nodes l).map d.inodes

/-- What paths meet at a place. -/
def shape (d : Disk) (l : Location) : Shape :=
  match d.inode? l with
  | some inode => inode.kind.shape
  | none => .leaf

/-- The place that a path names. -/
def lplace (d : Disk) (p : FsPath) : Option Location :=
  FsPath.resolve d.shape d.cwd false p

/-- The place that a path names after symbolic links. -/
def place (d : Disk) (p : FsPath) : Option Location :=
  FsPath.resolve d.shape d.cwd true p

/-! ### Changes -/

/-- The file system after one more call. -/
def tick (d : Disk) : Disk :=
  { d with calls := d.calls + 1 }

/-- The time. -/
def now (d : Disk) : ℤ × ℕ :=
  d.clock d.calls

/-- Link the file with number `i` to a place. -/
def link (d : Disk) (l : Location) (i : ℕ) (hi : i < d.next) : Disk :=
  { d with
    nodes := fun l' => if l' = l then some i else d.nodes l'
    places := l :: d.places
    used := by
      intro l' j h
      split at h
      · cases h
        exact hi
      · exact d.used l' j h
    listed := by
      intro l' h
      split at h
      · next heq =>
        rw [heq]
        exact List.mem_cons_self
      · exact List.mem_cons_of_mem _ (d.listed l' h) }

/-- Put a new file at a place. -/
def create (d : Disk) (l : Location) (inode : Inode) : Disk :=
  { d with
    nodes := fun l' => if l' = l then some d.next else d.nodes l'
    inodes := fun i => if i = d.next then inode else d.inodes i
    next := d.next + 1
    places := l :: d.places
    used := by
      intro l' j h
      split at h
      · cases h
        apply Nat.lt_succ_self
      · exact Nat.lt_succ_of_lt (d.used l' j h)
    listed := by
      intro l' h
      split at h
      · next heq =>
        rw [heq]
        exact List.mem_cons_self
      · exact List.mem_cons_of_mem _ (d.listed l' h) }

/-- Take the files away from some places. -/
def unlink (d : Disk) (gone : Location → Bool) : Disk :=
  { d with
    nodes := fun l => if gone l then none else d.nodes l
    used := by
      intro l j h
      split at h
      · cases h
      · exact d.used l j h
    listed := by
      intro l h
      split at h
      · exact absurd rfl h
      · exact d.listed l h }

/-- Move the file at `src` to `dst`, in the place of what is there. -/
def moveFile (d : Disk) (src dst : Location) : Disk :=
  { d with
    nodes := fun l => if l = dst then d.nodes src else if l = src then none else d.nodes l
    places := dst :: d.places
    used := by
      intro l j h
      split at h
      · exact d.used _ j h
      split at h
      · cases h
      · exact d.used l j h
    listed := by
      intro l h
      split at h
      · next heq =>
        rw [heq]
        exact List.mem_cons_self
      split at h
      · exact absurd rfl h
      · exact List.mem_cons_of_mem _ (d.listed l h) }

/-- Move the directory at `src` and what is below to `dst`, in the place of what is there. -/
def moveDir (d : Disk) (src dst : Location) : Disk :=
  { d with
    nodes := fun l =>
      if dst <+: l then d.nodes (src ++ l.drop dst.length)
      else if src <+: l then none
      else d.nodes l
    places := d.places ++ d.places.map fun l => dst ++ l.drop src.length
    used := by
      intro l j h
      split at h
      · exact d.used _ j h
      split at h
      · cases h
      · exact d.used l j h
    listed := by
      intro l h
      split at h
      · next hprefix =>
        apply List.mem_append_right
        refine List.mem_map.mpr ⟨_, d.listed _ h, ?_⟩
        rw [List.drop_left]
        obtain ⟨t, rfl⟩ := hprefix
        rw [List.drop_left]
      split at h
      · exact absurd rfl h
      · exact List.mem_append_left _ (d.listed l h) }

/-- Change the file with number `i`. -/
def edit (d : Disk) (i : ℕ) (f : Inode → Inode) : Disk :=
  { d with inodes := fun j => if j = i then f (d.inodes i) else d.inodes j }

/-! ### Questions -/

/-- The bits of the type in a mode. -/
def typeBits : FileKind → ℕ
  | .file _ => 0o100000
  | .dir => 0o040000
  | .symlink _ => 0o120000
  | .special kind => kind.bits

/-- The size of a file. -/
def size : FileKind → ℕ
  | .file data => data.length
  | .symlink target => target.length
  | .dir | .special _ => 0

/-- What is known of the file at a place. -/
def metadataAt (d : Disk) (l : Location) (inode : Inode) : Metadata where
  mode := typeBits inode.kind ||| inode.perm
  len := size inode.kind
  mtime := inode.mtime
  mtimeNsec := inode.mtimeNsec
  nlink := (d.places.dedup.filter fun l' => d.nodes l' = d.nodes l).length
  uid := inode.uid
  gid := inode.gid
  ino := (d.nodes l).getD 0

/-- What is known of the file at a place, if there is one. -/
def stat (d : Disk) (l : Option Location) : Except String Metadata :=
  match l with
  | some l =>
    match d.inode? l with
    | some inode => .ok (d.metadataAt l inode)
    | none => .error "not found"
  | none => .error "not found"

/-- The names in the directory at a place. -/
def namesIn (d : Disk) (l : Location) : List Name :=
  d.places.dedup.filterMap fun l' =>
    if l' ≠ [] ∧ l'.dropLast = l ∧ d.nodes l' ≠ none then l'.getLast? else none

/-- There is something in the directory at a place. -/
def occupied (d : Disk) (l : Location) : Bool :=
  d.places.any fun l' => l <+: l' ∧ l' ≠ l ∧ d.nodes l' ≠ none

/-! ### Calls that change files -/

/-- Write `data` to the file at a place, or to a new one. -/
def writeAt (d : Disk) (l : Location) (perm : Option (Fin 4096)) (data : List UInt8) :
    Option Disk :=
  match d.inode? l with
  | none =>
    some (d.create l { kind := .file data, perm := perm.getD 0o644, mtime := d.now.1,
                       mtimeNsec := d.now.2 })
  | some inode =>
    match inode.kind, d.nodes l with
    | .file _, some i =>
      some (d.edit i fun inode =>
        { inode.written d.now data with perm := perm.getD inode.perm })
    | .special _, _ => some d
    | _, _ => none

/-- Remove a file that is no directory. -/
def removeFile (d : Disk) (p : FsPath) : Option Disk := do
  let l ← d.lplace p
  let inode ← d.inode? l
  if inode.kind = .dir then none else some (d.unlink (· = l))

/-- Remove an empty directory. -/
def removeDir (d : Disk) (p : FsPath) : Option Disk := do
  let l ← d.lplace p
  let inode ← d.inode? l
  if inode.kind = .dir ∧ l ≠ [] ∧ d.occupied l = false then some (d.unlink (· = l)) else none

/-- Remove a directory and what is below. -/
def removeDirAll (d : Disk) (p : FsPath) : Option Disk := do
  let l ← d.lplace p
  let inode ← d.inode? l
  if inode.kind = .dir ∧ l ≠ [] then some (d.unlink (l <+: ·)) else none

/-- The file that is moved may take the place of what is at `dst`. -/
def replaces (d : Disk) (inode : Inode) (dst : Location) : Bool :=
  match d.inode? dst with
  | none => true
  | some old =>
    if inode.kind = .dir then old.kind = .dir && !d.occupied dst else old.kind ≠ .dir

/-- Give a file another name. Nothing happens when both are names of one file. -/
def rename (d : Disk) (p q : FsPath) : Option Disk := do
  let src ← d.lplace p
  let inode ← d.inode? src
  let dst ← d.lplace q
  if src = [] ∨ dst = [] then none
  else if d.nodes src = d.nodes dst then some d
  else if d.replaces inode dst = false then none
  else if inode.kind ≠ .dir then some (d.moveFile src dst)
  else if src <+: dst then none
  else some (d.moveDir src dst)

/-- Give a file one more name. -/
def hardLink (d : Disk) (p q : FsPath) : Option Disk := do
  let src ← d.lplace p
  let inode ← d.inode? src
  let dst ← d.lplace q
  match h : d.nodes src with
  | some i =>
    if inode.kind ≠ .dir ∧ d.inode? dst = none then some (d.link dst i (d.used src i h)) else none
  | none => none

/-- Make a symbolic link. -/
def symlink (d : Disk) (target p : FsPath) : Option Disk := do
  let l ← d.lplace p
  if target ≠ [] ∧ d.inode? l = none then
    some (d.create l { kind := .symlink target, mtime := d.now.1, mtimeNsec := d.now.2 })
  else
    none

/-- Copy a file, of which `n` bytes are written when that is said. The file that is written is
truncated first. -/
def copyFile (d : Disk) (n : Option ℕ) (p q : FsPath) : Option Disk := do
  let src ← d.place p
  let inode ← d.inode? src
  let dst ← d.place q
  match inode.kind with
  | .file data =>
    let data := if d.nodes dst = d.nodes src then [] else data
    d.writeAt dst (some inode.perm) (data.take (n.getD data.length))
  | _ => none

/-- Make or truncate a file. -/
def createFile (d : Disk) (p : FsPath) : Option Disk := do
  let l ← d.place p
  d.writeAt l none []

/-- Write to a file. -/
def writeFile (d : Disk) (n : Option ℕ) (p : FsPath) (data : List UInt8) : Option Disk := do
  let l ← d.place p
  if d.inode? l = none then none else d.writeAt l none (data.take (n.getD data.length))

/-- Make the directories that the components of a path name, as far as that is possible. -/
def createDirs (d : Disk) (cur : Location) : List FsPath → Disk × Bool
  | [] => (d, true)
  | part :: rest =>
    if d.shape cur ≠ .dir then (d, false)
    else if part = [] ∨ part = [dot] then createDirs d cur rest
    else if part = [dot, dot] then createDirs d cur.dropLast rest
    else
      match d.inode? (cur ++ [part]) with
      | none =>
        createDirs (d.create (cur ++ [part])
          { kind := .dir, perm := 0o755, mtime := d.now.1, mtimeNsec := d.now.2 })
          (cur ++ [part]) rest
      | some inode =>
        match inode.kind with
        | .dir => createDirs d (cur ++ [part]) rest
        | .symlink _ =>
          match FsPath.resolveFrom d.shape true FsPath.maxLinks cur [part] with
          | some l => if d.shape l = .dir then createDirs d l rest else (d, false)
          | none => (d, false)
        | _ => (d, false)

/-- Make a directory and those above it. -/
def createDirAll (d : Disk) (p : FsPath) : Disk × Bool :=
  if p = [] then (d, true)
  else d.createDirs (if FsPath.isAbsolute p then [] else d.cwd) (p.splitOn sep)

/-- Change what is said of the file at a place. -/
def editAt (d : Disk) (l : Option Location) (f : Inode → Inode) : Option Disk := do
  let i ← d.nodes (← l)
  some (d.edit i f)

/-! ### Answers -/

/-- The answer to a call that takes effect as a whole or fails. -/
def modify (d : Disk) (d' : Option Disk) : Option (Except String Unit × Disk) :=
  match d.fault d.calls, d' with
  | none, some d' => some (.ok (), d'.tick)
  | _, _ => some (.error "failed", d.tick)

/-- The answer to a call that writes: when it fails it has written in part. -/
def modifyPart (d : Disk) (d' : Option ℕ → Option Disk) : Option (Except String Unit × Disk) :=
  match d.fault d.calls with
  | none =>
    match d' none with
    | some d' => some (.ok (), d'.tick)
    | none => some (.error "failed", d.tick)
  | some n =>
    match d' (some n) with
    | some d' => some (.error "failed", d'.tick)
    | none => some (.error "failed", d.tick)

/-- The answer to a call that reads, which may fail. -/
def attempt {α : Type} (d : Disk) (a : Option α) : Option (Except String α × Disk) :=
  match d.fault d.calls, a with
  | none, some a => some (.ok a, d.tick)
  | _, _ => some (.error "failed", d.tick)

/-- What a file system answers, and what it is then. -/
def answer (d : Disk) : (c : FsCall) → Option (FsReply c × Disk)
  | .pathExists p => some (((d.place p).bind d.inode?).isSome, d)
  | .metadata p => some (d.stat (d.place p), d)
  | .symlinkMetadata p => some (d.stat (d.lplace p), d)
  | .readFile p =>
    d.attempt do
      let inode ← d.inode? (← d.place p)
      match inode.kind with
      | .file data => some data
      | _ => none
  | .readDir p =>
    d.attempt do
      let l ← d.place p
      if d.shape l = .dir then some (d.namesIn l) else none
  | .readLink p =>
    d.attempt do
      let inode ← d.inode? (← d.lplace p)
      match inode.kind with
      | .symlink target => some target
      | _ => none
  | .createDirAll p =>
    match d.fault d.calls with
    | none =>
      let (d', done) := d.createDirAll p
      some (if done then .ok () else .error "failed", d'.tick)
    | some _ => some (.error "failed", d.tick)
  | .createFile p => d.modify (d.createFile p)
  | .writeFile p data => d.modifyPart fun n => d.writeFile n p data
  | .rename p q => d.modify (d.rename p q)
  | .hardLink p q => d.modify (d.hardLink p q)
  | .symlink target p => d.modify (d.symlink target p)
  | .copyFile p q => d.modifyPart fun n => d.copyFile n p q
  | .removeFile p => d.modify (d.removeFile p)
  | .removeDir p => d.modify (d.removeDir p)
  | .removeDirAll p => d.modify (d.removeDirAll p)
  | .setPermissions p mode =>
    d.modify (d.editAt (d.place p) fun inode => { inode with perm := Fin.ofNat 4096 mode })
  | .setTimes p mtime =>
    d.modify (d.editAt (d.place p) fun inode => { inode with mtime, mtimeNsec := 0 })
  | .setLinkTimes p mtime mtimeNsec =>
    d.modify (d.editAt (d.lplace p) fun inode => { inode with mtime, mtimeNsec })
  | .chown p uid gid =>
    d.modify (d.editAt (d.lplace p) fun inode =>
      { inode with uid := uid.getD inode.uid, gid := gid.getD inode.gid })
  | .copyXattrs _ _ => d.modify (some d)
  | .setCurrentDir p =>
    d.modify do
      let l ← d.place p
      if d.shape l = .dir then some { d with cwd := l } else none

end Disk
