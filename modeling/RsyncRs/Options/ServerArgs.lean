import RsyncRs.Options

/-!
# Arguments for the server

The options of a client as the arguments with which the server is started: one bundle of
letters, long options with or without a value, and the filter rules.
-/

namespace Options

/-- The letter when the option is set. -/
def letter (isSet : Bool) (c : Char) : List Char :=
  if isSet then [c] else []

/-- The letters of the options that have one. -/
def flagLetters (opts : Options) : List Char :=
  List.replicate opts.verbose 'v' ++ letter opts.quiet 'q' ++
  (if opts.archive then
    ['a']
  else
    letter opts.recursive 'r' ++ letter opts.links 'l' ++ letter opts.perms 'p' ++
    letter opts.times 't' ++ letter opts.group 'g' ++ letter opts.owner 'o' ++
    letter opts.devices 'D') ++
  letter opts.checksum 'c' ++ letter opts.update 'u' ++ letter opts.hardLinks 'H' ++
  letter opts.copyLinks 'L' ++ letter opts.keepDirlinks 'k' ++ letter opts.wholeFile 'W' ++
  letter opts.dryRun 'n' ++ letter opts.relative 'R' ++ letter opts.backup 'b' ++
  letter opts.oneFileSystem 'x' ++ letter opts.itemizeChanges 'i' ++
  letter opts.omitDirTimes 'O' ++ letter opts.pruneEmptyDirs 'm' ++ letter opts.fuzzy 'y' ++
  letter opts.compress 'z'

/-- The bundle of letters, if there are any. -/
def flagsArg (opts : Options) : List Str :=
  if opts.flagLetters = [] then [] else ['-' :: opts.flagLetters]

/-- A long option and its value. -/
structure LongArg where
  /-- The name without the hyphens before it. -/
  name : Str
  /-- What comes after the equals sign. -/
  value : Option Str
  /-- The name has no equals sign. -/
  plain : '=' ∉ name

/-- The argument of a long option. -/
def LongArg.arg (long : LongArg) : Str :=
  match long.value with
  | none => '-' :: '-' :: long.name
  | some value => '-' :: '-' :: (long.name ++ '=' :: value)

/-- The long option when it is set. -/
def flag (isSet : Bool) (name : String) (plain : '=' ∉ name.toList := by decide) :
    List LongArg :=
  if isSet then [{ name := name.toList, value := none, plain }] else []

/-- The long option with a text when there is one. -/
def valued (name : String) (value : Option Str) (plain : '=' ∉ name.toList := by decide) :
    List LongArg :=
  value.toList.map fun value => { name := name.toList, value := some value, plain }

/-- The text of a number. -/
def number {α : Type} [ToString α] (value : Option α) : Option Str :=
  value.map fun value => (toString value).toList

/-- The long options, as far as they are sent before the filter rules. -/
def longArgs (opts : Options) : List LongArg :=
  flag opts.delete "delete" ++ flag opts.deleteBefore "delete-before" ++
  flag opts.deleteDuring "delete-during" ++ flag opts.deleteAfter "delete-after" ++
  flag opts.deleteExcluded "delete-excluded" ++ flag opts.force "force" ++
  valued "max-delete" (number opts.maxDelete) ++ flag opts.numericIds "numeric-ids" ++
  flag opts.copyDirlinks "copy-dirlinks" ++ flag opts.noImpliedDirs "no-implied-dirs" ++
  flag opts.partialFiles "partial" ++ valued "partial-dir" opts.partialDir ++
  flag opts.inplace "inplace" ++ flag opts.append "append" ++
  flag opts.noWholeFile "no-whole-file" ++ flag opts.progress "progress" ++
  flag opts.stats "stats" ++ valued "max-size" opts.maxSize ++
  valued "min-size" opts.minSize ++ valued "bwlimit" (number opts.bwlimit) ++
  valued "timeout" (number opts.timeout) ++ valued "checksum-choice" opts.checksumChoice ++
  valued "protocol" (number opts.protocol) ++
  valued "compress-level" (number opts.compressLevel) ++
  flag opts.omitLinkTimes "omit-link-times" ++ flag opts.executability "executability" ++
  flag opts.acls "acls" ++ flag opts.xattrs "xattrs" ++
  flag (opts.specials && !opts.archive && !opts.devices) "specials" ++
  flag opts.ignoreErrors "ignore-errors" ++ flag opts.ignoreExisting "ignore-existing" ++
  flag opts.ignoreNonExisting "ignore-non-existing" ++
  flag opts.removeSourceFiles "remove-source-files" ++ flag opts.listOnly "list-only" ++
  flag opts.mkpath "mkpath" ++ valued "suffix" opts.suffix ++
  valued "backup-dir" opts.backupDir ++
  opts.linkDest.flatMap (fun dir => valued "link-dest" (some dir)) ++
  valued "files-from" opts.filesFrom ++ flag opts.cvsExclude "cvs-exclude" ++
  opts.exclude.flatMap (fun pat => valued "exclude" (some pat)) ++
  opts.includePatterns.flatMap (fun pat => valued "include" (some pat))

/-- The arguments of a filter rule. The rule is an argument of its own. -/
def filterArgs (rule : Str) : List Str :=
  ["--filter".toList, rule]

/-- The arguments for the server. -/
def serverArgs (opts : Options) : List Str :=
  opts.flagsArg ++ opts.longArgs.map LongArg.arg ++ opts.filter.flatMap filterArgs

end Options
