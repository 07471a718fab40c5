import RsyncRs.Filter.Rules
import RsyncRs.Flist.HardLinks
import RsyncRs.Fs.Inside
import RsyncRs.Fs.Tree
import RsyncRs.Str

/-!
# Walking through the sources

The files under the sources are listed one source after the other, each with a path relative to
its own source. Entries are kept here with what they were made from, which the list does not say.
-/

/-- What a walk looks for. -/
structure WalkArgs where
  /-- Go into directories. -/
  recursive : Bool := true
  filter : FilterList := {}
  maxSize : Option ℤ := none
  minSize : Option ℤ := none
  pruneEmptyDirs : Bool := false

/-- An entry, and what it was made from. -/
structure Found where
  info : FileInfo
  /-- The file that the entry is about. -/
  origin : FsPath
  /-- The directory from which its path starts. -/
  home : FsPath
  /-- The names of the directories from there, and that of the file. -/
  names : List Name

/-! ### Entries -/

/-- Directory and base name of a relative path. -/
def splitRel (rel : Name) : Option Name × Name :=
  if sep ∈ rel then (some (FsPath.beforeLastPart rel), FsPath.lastPart rel) else (none, rel)

/-- The entry of a file. -/
def fileInfoFromMeta (name : Name) (dirname : Option Name) (m : Metadata) : FileInfo where
  name
  dirname
  size := wrapI64 m.len
  modtime := m.mtime
  mode := m.mode
  uid := m.uid
  gid := m.gid
  dev := m.dev
  ino := m.ino

/-- The target of a link as it is listed. -/
def FsTree.linkTarget : FsTree → Option Name
  | symlink _ (some target) => some (fromUtf8Lossy target)
  | _ => none

/-- The entry of a file with a path relative to its source. -/
def relInfo (rel : Name) (node : FsTree) (m : Metadata) : FileInfo :=
  { fileInfoFromMeta (splitRel rel).2 (splitRel rel).1 m with linkTarget := node.linkTarget }

/-- A directory that the walk has come to, or a file in one. -/
structure WalkPlace where
  /-- The directory in which the walk started. -/
  home : FsPath
  dir : FsPath
  /-- Its path relative to where the walk started. -/
  rel : Name
  /-- The names on the way. -/
  names : List Name

namespace WalkPlace

/-- Where a walk starts. -/
def start (dir : FsPath) : WalkPlace :=
  { home := dir, dir, rel := [], names := [] }

/-- The file of that name in a directory. -/
def enter (place : WalkPlace) (name : EntryName) : WalkPlace where
  home := place.home
  dir := place.dir.join name
  rel :=
    if place.rel = [] then fromUtf8Lossy name else place.rel ++ sep :: fromUtf8Lossy name
  names := place.names ++ [name.1]

/-- The entry of a file. -/
def found (place : WalkPlace) (node : FsTree) (m : Metadata) : Found where
  info := relInfo place.rel node m
  origin := place.dir
  home := place.home
  names := place.names

end WalkPlace

namespace WalkArgs

/-- A file of that size is listed. -/
def admits (args : WalkArgs) (size : ℤ) : Bool :=
  args.maxSize.all (size ≤ ·) && args.minSize.all (· ≤ size)

/-- The entry of a file and those inside it, unless the file is left out. -/
def list (args : WalkArgs) (place : WalkPlace) (node : FsTree) (inside : List Found) :
    List Found :=
  match node.metadata with
  | none => []
  | some m =>
    if args.filter.isExcluded (strOf place.rel) m.isDir then
      []
    else if m.isSymlink then
      [place.found node m]
    else if m.isDir then
      if args.recursive && args.pruneEmptyDirs && inside.isEmpty then []
      else place.found node m :: inside
    else
      if args.admits (wrapI64 m.len) then [place.found node m] else []

mutual

/-- The entries for a file. -/
def walkFile (args : WalkArgs) (place : WalkPlace) : FsTree → List Found
  | .dir attrs entries =>
    args.list place (.dir attrs entries)
      (if args.recursive then walkSourceDir args place entries else [])
  | node => args.list place node []

/-- The entries for what is in a directory. -/
def walkSourceDir (args : WalkArgs) (place : WalkPlace) : Entries → List Found
  | .nil => []
  | .cons name node rest => walkFile args (place.enter name) node ++ walkSourceDir args place rest

end

/-- The entries for what is in a file that may be a directory. A directory that cannot be read
has none. -/
def walk (args : WalkArgs) (dir : FsPath) : FsTree → List Found
  | .dir _ entries => args.walkSourceDir (.start dir) entries
  | _ => []

end WalkArgs

/-! ### Sources -/

/-- A source that is named by an argument. -/
structure SourceArg where
  arg : FsPath
  /-- What the file is itself. -/
  node : Option FsTree
  /-- What it is after symbolic links. -/
  target : Option FsTree
  /-- Only a directory can be named otherwise than by a last component, and arguments are
  strings. -/
  named : target.any FsTree.isDir = false → node.isSome ∨ target.isSome →
    ∃ name, FsPath.fileName arg = some name ∧ isUtf8 name = true

namespace SourceArg

/-- The argument names a directory. -/
def isDir (s : SourceArg) : Bool :=
  s.target.any FsTree.isDir

/-- The argument names a regular file. -/
def isFile (s : SourceArg) : Bool :=
  (s.target.bind FsTree.metadata).any Metadata.isFile

/-- The directory that the file is in. -/
def parentDir (s : SourceArg) : FsPath :=
  (FsPath.parent s.arg).getD [dot]

/-- The name under which a single file is listed. -/
def baseName (s : SourceArg) : Name :=
  match FsPath.fileName s.arg with
  | some name => if isUtf8 name then name else s.arg
  | none => s.arg

/-- The entry of a single file. -/
def foundFile (s : SourceArg) (m : Metadata) (linkTarget : Option Name) : Found where
  info := { fileInfoFromMeta s.baseName none m with linkTarget := linkTarget }
  origin := s.arg
  home := s.parentDir
  names := [s.baseName]

/-- The entry of the root of a directory. -/
def foundRoot (s : SourceArg) (m : Metadata) : Found where
  info :=
    let root := fileInfoFromMeta [dot] none m
    { root with flags := root.flags ||| flagTopDir }
  origin := s.arg
  home := s.arg
  names := []

/-- The entries for a directory. -/
def foundDir (s : SourceArg) (args : WalkArgs) (target : FsTree) : List Found :=
  (target.metadata.map s.foundRoot).toList ++ args.walk s.arg target

/-- The entries for a source. A single file is looked at as `file`. -/
def foundEntries (s : SourceArg) (args : WalkArgs) (file : Option FsTree)
    (linkTarget : FsTree → Option Name) : List Found :=
  if s.isDir then
    (s.target.map (s.foundDir args)).getD []
  else
    (file.bind fun node => node.metadata.map fun m => s.foundFile m (linkTarget node)).toList

/-- The entries that a client lists for a source when it pushes. -/
def pushEntries (s : SourceArg) (args : WalkArgs) : List Found :=
  s.foundEntries args s.node FsTree.linkTarget

/-- The entries that a server lists for a source. -/
def serverEntries (s : SourceArg) (args : WalkArgs) : List Found :=
  s.foundEntries args s.target fun _ => none

/-- The directory in which a client that pushes looks files up. -/
def pushBaseDir : List SourceArg → FsPath
  | [] => [dot]
  | s :: _ => if s.isDir then s.arg else s.parentDir

/-- The directory in which a server looks files up. -/
def serverBaseDir : List SourceArg → FsPath
  | [] => [dot]
  | s :: _ => if s.isFile then s.parentDir else s.arg

end SourceArg

/-! ### Lists of files -/

/-- The path that a line names, unless it is blank or a comment. -/
def pathOfLine (line : Str) : Option FsPath :=
  let line := line.trim.trimStartMatches '/'
  if line = [] ∨ line.head? = some '#' then none else some line.bytes

/-- The place to which a line of a list leads. -/
def WalkPlace.ofLine (base rel : FsPath) : WalkPlace where
  home := base
  dir := base.join rel
  rel
  names := FsPath.partNames rel

/-- The entries for what a line of a list names. The filter is not asked about it, only about what
is inside. -/
def WalkArgs.listed (args : WalkArgs) (base rel : FsPath) (node : FsTree) : List Found :=
  let inside :=
    match node with
    | .dir _ entries => if args.recursive then args.walkSourceDir (.ofLine base rel) entries else []
    | _ => []
  { args with filter := {} }.list (.ofLine base rel) node inside

/-- The list of some entries, with its hard links marked when these are preserved. -/
def listFound (groups : List ((ℕ × ℕ) × List ℕ)) (hardLinks : Bool) (found : List Found) :
    FileList :=
  markHardLinks groups (flistSort { files := found.map Found.info }) hardLinks

/-- What the entry with the index `ndx` was made from. -/
def requested (found : List Found) (ndx : ℤ) : Option Found :=
  (found.mergeSort fun a b => fileLe a.info b.info)[asUsize (wrapI32 ndx)]?

/-! ### Where the entries lead -/

/-- The names lead to the file from the directory where the path of its entry starts, and the
path has these names as strings. -/
structure Found.Leads (e : Found) : Prop where
  origin : ∀ cwd, FsPath.locate cwd e.origin = FsPath.locate cwd e.home ++ e.names
  relative : FsPath.isAbsolute e.info.path = false
  path : ∀ place, FsPath.walk place e.info.path = place ++ e.names.map fromUtf8Lossy

/-- The names lead to a place of the walk, and its path has these names as strings. -/
structure WalkPlace.Ok (place : WalkPlace) : Prop where
  names : ∀ name ∈ place.names, FsPath.IsName name
  dir : ∀ cwd, FsPath.locate cwd place.dir = FsPath.locate cwd place.home ++ place.names
  rel : place.rel = FsPath.ofNames (place.names.map fromUtf8Lossy)

theorem WalkPlace.ok_start
    (dir : FsPath) :
  (start dir).Ok
  := by
  refine ⟨by simp [start], fun cwd => ?_, rfl⟩
  rw [start, List.append_nil]

theorem WalkPlace.Ok.isName_lossy
    {place : WalkPlace} (h : place.Ok) :
  ∀ name ∈ place.names.map fromUtf8Lossy, FsPath.IsName name
  := by
  intro name hname
  obtain ⟨n, hn, rfl⟩ := List.mem_map.mp hname
  exact (h.names n hn).lossy

theorem WalkPlace.Ok.enter
    {place : WalkPlace} (h : place.Ok) (name : EntryName) :
  (place.enter name).Ok
  := by
  refine ⟨?_, fun cwd => ?_, ?_⟩
  · intro n hn
    rcases List.mem_append.mp hn with hn | hn
    · exact h.names n hn
    · rw [List.mem_singleton.mp hn]
      exact name.2
  · have hnames : ∀ n ∈ [name.1], FsPath.IsName n := by simpa using name.2
    have hjoin := FsPath.locate_join_ofNames cwd place.dir hnames
    rw [FsPath.ofNames, List.intercalate_singleton] at hjoin
    rw [WalkPlace.enter, hjoin, h.dir, List.append_assoc]
  · have hnil := FsPath.ofNames_eq_nil_iff h.isName_lossy
    rw [← h.rel, List.map_eq_nil_iff] at hnil
    rw [WalkPlace.enter, List.map_append, List.map_singleton]
    dsimp only
    by_cases hrel : place.rel = []
    · rw [if_pos hrel, hnil.mp hrel]
      simp [FsPath.ofNames]
    · rw [if_neg hrel, FsPath.ofNames_concat, ← h.rel]
      rw [ne_eq, List.map_eq_nil_iff]
      exact hnil.not.mp hrel

/-- The path of an entry is the relative path of its file. -/
theorem path_relInfo
    {rel : Name} (h : FsPath.isAbsolute rel = false) (node : FsTree) (m : Metadata) :
  (relInfo rel node m).path = rel
  := by
  unfold relInfo splitRel
  by_cases hsep : sep ∈ rel
  · have hsplit := FsPath.beforeLastPart_append hsep
    have hne : FsPath.beforeLastPart rel ≠ [] := by
      intro hnil
      rw [hnil, List.nil_append] at hsplit
      rw [← hsplit] at h
      cases h
    rw [if_pos hsep]
    simp only [FileInfo.path, fileInfoFromMeta, if_neg hne, List.append_assoc]
    exact hsplit
  · rw [if_neg hsep]
    rfl

/-- The entries for a place of a walk lead there. -/
theorem WalkPlace.Ok.leads_found
    {place : WalkPlace} (h : place.Ok) (node : FsTree) (m : Metadata) :
  (place.found node m).Leads
  := by
  have habs : FsPath.isAbsolute place.rel = false := by
    rw [h.rel]
    apply FsPath.isAbsolute_ofNames h.isName_lossy
  have hpath := path_relInfo habs node m
  refine ⟨h.dir, ?_, fun cwd => ?_⟩
  · rw [WalkPlace.found, hpath]
    exact habs
  · rw [WalkPlace.found, hpath, h.rel]
    apply FsPath.walk_ofNames cwd h.isName_lossy

/-- The entry is one for a place of which `P` is true. -/
def Found.MadeAt (P : WalkPlace → Prop) (e : Found) : Prop :=
  ∃ (place : WalkPlace) (node : FsTree) (m : Metadata), P place ∧ e = place.found node m

/-- The entry is one for a place of a walk. -/
def Found.Walked (e : Found) : Prop :=
  ∃ (place : WalkPlace) (node : FsTree) (m : Metadata), place.Ok ∧ e = place.found node m

theorem Found.Walked.leads
    {e : Found} (h : e.Walked) :
  e.Leads
  := by
  obtain ⟨place, node, m, hok, rfl⟩ := h
  apply hok.leads_found

namespace WalkArgs

variable {args : WalkArgs} {P : WalkPlace → Prop}

theorem madeAt_list
    {place : WalkPlace} (h : P place) {node : FsTree} {inside : List Found}
    (hinside : ∀ e ∈ inside, e.MadeAt P) :
  ∀ e ∈ args.list place node inside, e.MadeAt P
  := by
  intro e he
  unfold list at he
  cases hm : node.metadata with
  | none =>
      rw [hm] at he
      cases he
  | some m =>
      have hentry : (place.found node m).MadeAt P := ⟨place, node, m, h, rfl⟩
      rw [hm] at he
      dsimp only at he
      split at he
      · cases he
      split at he
      · rwa [List.mem_singleton.mp he]
      split at he
      · split at he
        · cases he
        · rcases List.mem_cons.mp he with rfl | he
          · exact hentry
          · exact hinside e he
      · split at he
        · rwa [List.mem_singleton.mp he]
        · cases he

mutual

theorem madeAt_walkFile
    (henter : ∀ place (name : EntryName), P place → P (place.enter name)) {place : WalkPlace}
    (h : P place) (node : FsTree) :
  ∀ e ∈ args.walkFile place node, e.MadeAt P
  := by
  cases node with
  | dir attrs entries =>
      rw [walkFile]
      apply madeAt_list h
      cases args.recursive with
      | true => exact madeAt_walkSourceDir henter h entries
      | false => simp
  | _ =>
      simp only [walkFile]
      apply madeAt_list h (List.forall_mem_nil _)

/-- What is kept by going into directories is true of all places of a walk. -/
theorem madeAt_walkSourceDir
    (henter : ∀ place (name : EntryName), P place → P (place.enter name)) {place : WalkPlace}
    (h : P place) (entries : Entries) :
  ∀ e ∈ args.walkSourceDir place entries, e.MadeAt P
  := by
  cases entries with
  | nil => simp [walkSourceDir]
  | cons name node rest =>
      intro e he
      rw [walkSourceDir, List.mem_append] at he
      rcases he with he | he
      · exact madeAt_walkFile henter (henter place name h) node e he
      · exact madeAt_walkSourceDir henter h rest e he

end

/-- What is true of the places in a directory, and kept by going into directories, is true of all
places below it. -/
theorem madeAt_entered
    (henter : ∀ place (name : EntryName), P place → P (place.enter name)) {place : WalkPlace}
    (h : ∀ name : EntryName, P (place.enter name)) (entries : Entries) :
  ∀ e ∈ args.walkSourceDir place entries, e.MadeAt P
  := by
  cases entries with
  | nil => simp [walkSourceDir]
  | cons name node rest =>
      intro e he
      rw [walkSourceDir, List.mem_append] at he
      rcases he with he | he
      · exact madeAt_walkFile henter (h name) node e he
      · exact madeAt_entered henter h rest e he

theorem walked_walkSourceDir
    {place : WalkPlace} (h : place.Ok) (entries : Entries) :
  ∀ e ∈ args.walkSourceDir place entries, e.Walked
  := madeAt_walkSourceDir (fun _ name hplace => hplace.enter name) h entries

end WalkArgs

namespace SourceArg

theorem leads_foundRoot
    (s : SourceArg) (m : Metadata) :
  (s.foundRoot m).Leads
  := by
  refine ⟨fun cwd => ?_, rfl, fun place => ?_⟩
  · rw [foundRoot, List.append_nil]
  · have hpath : (s.foundRoot m).info.path = [dot] := rfl
    rw [hpath, FsPath.walk_dot, foundRoot, List.map_nil, List.append_nil]

theorem leads_foundDir
    (s : SourceArg) (args : WalkArgs) (target : FsTree) :
  ∀ e ∈ s.foundDir args target, e.Leads
  := by
  intro e he
  rcases List.mem_append.mp he with he | he
  · obtain ⟨m, -, rfl⟩ := Option.map_eq_some_iff.mp (Option.mem_toList.mp he)
    apply leads_foundRoot
  · cases target with
    | dir attrs entries =>
        exact (WalkArgs.walked_walkSourceDir (WalkPlace.ok_start s.arg) entries e he).leads
    | _ => cases he

theorem leads_foundFile
    {s : SourceArg} (hdir : s.isDir = false) (h : s.node.isSome ∨ s.target.isSome) (m : Metadata)
    (linkTarget : Option Name) :
  (s.foundFile m linkTarget).Leads
  := by
  obtain ⟨name, hname, hutf8⟩ := s.named hdir h
  have hbase : s.baseName = name := by
    rw [baseName, hname]
    exact if_pos hutf8
  have hpath : (s.foundFile m linkTarget).info.path = name := hbase
  obtain ⟨hisName, -⟩ := FsPath.locate_fileName [] hname
  refine ⟨fun cwd => ?_, ?_, fun place => ?_⟩
  · obtain ⟨-, q, hparent, hlocate⟩ := FsPath.locate_fileName cwd hname
    rw [foundFile, hbase, parentDir, hparent, Option.getD_some]
    exact hlocate
  · have hnames : ∀ n ∈ [name], FsPath.IsName n := by simpa using hisName
    have habs := FsPath.isAbsolute_ofNames hnames
    rw [FsPath.ofNames, List.intercalate_singleton] at habs
    rw [hpath, habs]
  · rw [hpath, FsPath.walk_part place hisName.noSep, FsPath.enter_name place hisName, foundFile,
      hbase, List.map_singleton, fromUtf8Lossy_of_isUtf8 hutf8]

theorem leads_foundEntries
    (s : SourceArg) (args : WalkArgs) {file : Option FsTree}
    (hfile : file.isSome → s.node.isSome ∨ s.target.isSome) (linkTarget : FsTree → Option Name) :
  ∀ e ∈ s.foundEntries args file linkTarget, e.Leads
  := by
  intro e he
  unfold foundEntries at he
  cases hdir : s.isDir with
  | true =>
      rw [hdir, if_pos rfl] at he
      cases htarget : s.target with
      | none =>
          rw [htarget] at he
          cases he
      | some target =>
          rw [htarget] at he
          exact leads_foundDir s args target e he
  | false =>
      rw [hdir, if_neg Bool.false_ne_true] at he
      obtain ⟨node, rfl, hm⟩ := Option.bind_eq_some_iff.mp (Option.mem_toList.mp he)
      obtain ⟨m, -, rfl⟩ := Option.map_eq_some_iff.mp hm
      apply leads_foundFile hdir (hfile rfl)

theorem leads_serverEntries
    (s : SourceArg) (args : WalkArgs) :
  ∀ e ∈ s.serverEntries args, e.Leads
  := leads_foundEntries s args Or.inr fun _ => none

end SourceArg

/-! ### Places in the list -/

/-- An entry without what the marking of hard links changes. -/
def FileInfo.unlinked (fi : FileInfo) : FileInfo :=
  { fi with flags := 0, hardLinkFirstNdx := 0 }

@[simp]
theorem FileInfo.path_unlinked
    (fi : FileInfo) :
  fi.unlinked.path = fi.path
  := rfl

@[simp]
theorem FileInfo.isRegular_unlinked
    (fi : FileInfo) :
  fi.unlinked.isRegular = fi.isRegular
  := rfl

theorem unlinked_markMember
    (leaderWirePos : ℤ) (flist : FileList) (member : ℕ × ℕ) :
  (markMember leaderWirePos flist member).files.map FileInfo.unlinked =
    flist.files.map FileInfo.unlinked
  := by
  unfold markMember
  apply List.ext_getElem (by simp)
  intro i _ _
  rw [List.getElem_map, List.getElem_map, List.getElem_modify]
  split
  · split
    · rfl
    · rfl
  · rfl

theorem unlinked_markGroup
    (flist : FileList) (positions : List ℕ) :
  (markGroup flist positions).files.map FileInfo.unlinked = flist.files.map FileInfo.unlinked
  := by
  unfold markGroup
  split
  · rfl
  · dsimp only
    generalize wrapI32 (positions.mergeSort.headD 0) = leaderWirePos
    generalize positions.mergeSort.zipIdx = members
    induction members generalizing flist with
    | nil => rfl
    | cons member members ih => rw [List.foldl_cons, ih, unlinked_markMember]

/-- The marking of hard links changes nothing else. -/
theorem unlinked_markHardLinks
    (groups : List ((ℕ × ℕ) × List ℕ)) (flist : FileList) (hardLinks : Bool) :
  (markHardLinks groups flist hardLinks).files.map FileInfo.unlinked =
    flist.files.map FileInfo.unlinked
  := by
  unfold markHardLinks
  split
  · rfl
  · induction groups generalizing flist with
    | nil => rfl
    | cons group groups ih => rw [List.foldl_cons, ih, unlinked_markGroup]

theorem ndxStart_markHardLinks
    (groups : List ((ℕ × ℕ) × List ℕ)) (flist : FileList) (hardLinks : Bool) :
  (markHardLinks groups flist hardLinks).ndxStart = flist.ndxStart
  := by
  have hmembers : ∀ (leader : ℤ) (members : List (ℕ × ℕ)) (flist : FileList),
      (members.foldl (markMember leader) flist).ndxStart = flist.ndxStart := by
    intro leader members
    induction members with
    | nil => exact fun _ => rfl
    | cons member members ih => exact fun flist => ih _
  unfold markHardLinks
  split
  · rfl
  · induction groups generalizing flist with
    | nil => rfl
    | cons group groups ih =>
        rw [List.foldl_cons, ih, markGroup]
        split
        · rfl
        · apply hmembers

/-- The entry that an index denotes is the one that was made from what is requested, up to the
marking of hard links. -/
theorem getByNdx_listFound
    (groups : List ((ℕ × ℕ) × List ℕ)) (hardLinks : Bool) (found : List Found) (ndx : ℤ) :
  ((listFound groups hardLinks found).getByNdx ndx).map FileInfo.unlinked =
    (requested found ndx).map fun e => e.info.unlinked
  := by
  have hfiles := unlinked_markHardLinks groups (flistSort { files := found.map Found.info })
    hardLinks
  have hsort : (found.mergeSort fun a b => fileLe a.info b.info).map Found.info =
      (flistSort { files := found.map Found.info }).files :=
    List.map_mergeSort fun _ _ _ _ => rfl
  have hstart : (listFound groups hardLinks found).ndxStart = 0 :=
    ndxStart_markHardLinks groups _ hardLinks
  rw [FileList.getByNdx, hstart, Int.sub_zero, ← List.getElem?_map, listFound, hfiles, ← hsort,
    requested, List.map_map, List.getElem?_map]
  rfl
