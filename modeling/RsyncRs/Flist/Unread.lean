import RsyncRs.Flist.Aligned
import RsyncRs.Flist.Extraneous
import RsyncRs.Flist.Sorted
import RsyncRs.Flist.Walk

/-!
# Directories that are not read in full

What the walk cannot read is left out of the list as if it were not there. What the destination has
below is taken for extraneous, unless it is listed through what was read.
-/

/-- What the sources of a transfer are. -/
inductive Sources where
  /-- The arguments. -/
  | args (sources : List SourceArg)
  /-- What the lines of a text name below the first argument. The text may not be readable. -/
  | lines (base : FsPath) (text : Option Str) (look : FsPath → Option FsTree)

/-! ### Directories that are not read -/

namespace WalkArgs

mutual

/-- The directories to which the walk through a file comes and of which it misses something, by
their paths in the list. -/
def unreadFile (args : WalkArgs) (place : WalkPlace) : FsTree → List Name
  | .dir _ entries =>
    if args.filter.isExcluded (strOf place.rel) true then []
    else if args.recursive then unreadDir args place entries else []
  | .sealed _ =>
    if args.filter.isExcluded (strOf place.rel) true then []
    else if args.recursive then [place.rel] else []
  | _ => []

/-- The same for a directory with these entries. It is one of them when nothing is learnt about an
entry, whatever the filter says. -/
def unreadDir (args : WalkArgs) (place : WalkPlace) : Entries → List Name
  | .nil => []
  | .cons name node rest =>
    (if node.metadata.isNone then [place.rel] else unreadFile args (place.enter name) node) ++
      unreadDir args place rest

end

/-- The same for a walk from a directory. -/
def unread (args : WalkArgs) (place : WalkPlace) : FsTree → List Name
  | .dir _ entries => args.unreadDir place entries
  | .sealed _ => [place.rel]
  | _ => []

/-- The same for what a line of a list names. A line may name what is not found. -/
def unreadLine (args : WalkArgs) (base rel : FsPath) (node : Option FsTree) : List Name :=
  match node with
  | none | some .hidden => [rel]
  | some node => if args.recursive then args.unread (.ofLine base rel) node else []

end WalkArgs

/-- What a source is when it is no directory. A server looks through symbolic links. -/
def SourceArg.file (s : SourceArg) (pull : Bool) : Option FsTree :=
  if pull then s.target else s.node

/-- The directories of a source of which the walk misses something. All of a source is missed when
nothing is learnt about it. -/
def SourceArg.unread (s : SourceArg) (args : WalkArgs) (pull : Bool) : List Name :=
  if s.isDir then (s.target.map (args.unread (.start s.arg))).getD []
  else if ((s.file pull).bind FsTree.metadata).isNone then [[]]
  else []

/-- The entries for the arguments, when a server lists them and when a client does. -/
def foundIn (args : WalkArgs) (pull : Bool) (sources : List SourceArg) : List Found :=
  sources.flatMap fun s => if pull then s.serverEntries args else s.pushEntries args

namespace Sources

/-- The entries for the sources. A client fails when it cannot read the text, and a server lists
nothing. -/
def found (args : WalkArgs) (pull : Bool) : Sources → Option (List Found)
  | .args sources => some (foundIn args pull sources)
  | .lines base (some text) look =>
    some ((text.lines.filterMap pathOfLine).flatMap fun rel =>
      (look (base.join rel)).toList.flatMap (args.listed base rel))
  | .lines _ none _ => if pull then some [] else none

/-- The directories of the sources of which something is missed. -/
def unread (args : WalkArgs) (pull : Bool) : Sources → List Name
  | .args sources => sources.flatMap fun s => s.unread args pull
  | .lines base (some text) look =>
    (text.lines.filterMap pathOfLine).flatMap fun rel =>
      args.unreadLine base rel (look (base.join rel))
  | .lines _ none _ => [[]]

end Sources

section

variable {X H : Type} {Reply : X → Type} {answer : H → (x : X) → Option (Reply x × H)}
  {protocol checksumLen : ℕ} {ioError : ℤ} {preserve : Preserve} {compatFlags : ℕ}

end

/-! ### What is removed -/

section

variable {flist : FileList} {found : List Found} {args : WalkArgs} {pull : Bool} {sources : Sources}

end

mutual

/-- Nothing is removed when nothing is to be changed. -/
theorem walkKept_dry
    (root : FsPath) (kept : List FsPath) (path : FsPath) (acc : Deleted) (node : FsTree) :
  (walkKept root kept true path acc node).1 = node
  := by
  match node with
  | .dir attrs entries =>
    rw [walkKept]
    exact congrArg (FsTree.dir attrs) (walkExtraneous_dry root kept path acc entries)
  | .file _ _ _ | .symlink _ _ | .special _ _ | .sealed _ | .hidden =>
    rw [walkKept]
    simp

theorem walkExtraneous_dry
    (root : FsPath) (kept : List FsPath) (cur : FsPath) (acc : Deleted) (entries : Entries) :
  (walkExtraneous root kept true cur acc entries).1 = entries
  := by
  match entries with
  | .nil => rfl
  | .cons name node rest =>
    rw [walkExtraneous]
    split
    · exact congrArg (Entries.cons name node) (walkExtraneous_dry root kept cur acc rest)
    · split
      · dsimp only
        rw [walkKept_dry root kept _ acc node, walkExtraneous_dry root kept cur _ rest]
      · exact congrArg (Entries.cons name node) (walkExtraneous_dry root kept cur _ rest)

end
