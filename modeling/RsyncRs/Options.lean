import RsyncRs.Str

/-!
# Options

The options of a client, as they are parsed from its command line.
-/

/-- The options of a client. -/
structure Options where
  /-- How much is printed. -/
  verbose : ℕ := 0
  quiet : Bool := false
  /-- Stands for `-rlptgoD`. -/
  archive : Bool := false
  recursive : Bool := false
  links : Bool := false
  copyLinks : Bool := false
  copyDirlinks : Bool := false
  keepDirlinks : Bool := false
  perms : Bool := false
  executability : Bool := false
  acls : Bool := false
  xattrs : Bool := false
  owner : Bool := false
  group : Bool := false
  numericIds : Bool := false
  devices : Bool := false
  specials : Bool := false
  times : Bool := false
  omitDirTimes : Bool := false
  omitLinkTimes : Bool := false
  checksum : Bool := false
  update : Bool := false
  itemizeChanges : Bool := false
  delete : Bool := false
  deleteBefore : Bool := false
  deleteDuring : Bool := false
  deleteAfter : Bool := false
  deleteExcluded : Bool := false
  force : Bool := false
  maxDelete : Option ℤ := none
  /-- A file with the names of the files to transfer. -/
  filesFrom : Option Str := none
  /-- Patterns to exclude. -/
  exclude : List Str := []
  /-- Files with rules, read after those of `includeFrom`. -/
  excludeFrom : List Str := []
  /-- Patterns to include. -/
  includePatterns : List Str := []
  /-- Files with rules. -/
  includeFrom : List Str := []
  /-- Rules. -/
  filter : List Str := []
  /-- Exclude what CVS ignores. -/
  cvsExclude : Bool := false
  compress : Bool := false
  compressLevel : Option ℤ := none
  wholeFile : Bool := false
  noWholeFile : Bool := false
  append : Bool := false
  inplace : Bool := false
  /-- Keep files that were not received as a whole. -/
  partialFiles : Bool := false
  partialDir : Option Str := none
  hardLinks : Bool := false
  backup : Bool := false
  backupDir : Option Str := none
  suffix : Option Str := none
  /-- Directories with files to link to. -/
  linkDest : List Str := []
  relative : Bool := false
  noImpliedDirs : Bool := false
  progress : Bool := false
  stats : Bool := false
  dryRun : Bool := false
  maxSize : Option Str := none
  minSize : Option Str := none
  protocol : Option ℕ := none
  checksumChoice : Option Str := none
  timeout : Option ℕ := none
  bwlimit : Option ℕ := none
  fuzzy : Bool := false
  pruneEmptyDirs : Bool := false
  oneFileSystem : Bool := false
  mkpath : Bool := false
  ignoreErrors : Bool := false
  ignoreExisting : Bool := false
  ignoreNonExisting : Bool := false
  removeSourceFiles : Bool := false
  listOnly : Bool := false
deriving DecidableEq, Repr

namespace Options

/-- Replace the shortcut for archives by what it stands for. -/
def expandArchive (opts : Options) : Options :=
  if opts.archive then
    { opts with recursive := true, links := true, perms := true, times := true, group := true,
                owner := true, devices := true, specials := true }
  else
    opts

end Options
