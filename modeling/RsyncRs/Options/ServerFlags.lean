import RsyncRs.Options

/-!
# Flags of the server

The server parses its arguments: bundles of letters, the few long options that it knows, and
paths.
-/

/-- What the server takes from its arguments. -/
structure ServerFlags where
  verbose : ℕ := 0
  quiet : Bool := false
  archive : Bool := false
  recursive : Bool := false
  links : Bool := false
  perms : Bool := false
  times : Bool := false
  group : Bool := false
  owner : Bool := false
  devices : Bool := false
  specials : Bool := false
  checksum : Bool := false
  update : Bool := false
  hardLinks : Bool := false
  copyLinks : Bool := false
  keepDirlinks : Bool := false
  wholeFile : Bool := false
  dryRun : Bool := false
  relative : Bool := false
  itemize : Bool := false
  fuzzy : Bool := false
  xattrs : Bool := false
  cvsExclude : Bool := false
  ignoreTimes : Bool := false
  oneFileSystem : Bool := false
  protectArgs : Bool := false
  compress : Bool := false
  delete : Bool := false
  ignoreExisting : Bool := false
  pruneEmptyDirs : Bool := false
  maxSize : Option ℤ := none
  minSize : Option ℤ := none
  linkDest : List Str := []
  filesFrom : Option Str := none
  /-- Letters that are not known. -/
  unknown : Str := []
  /-- What follows an `e` in a bundle. -/
  eTail : Str := []
deriving DecidableEq, Repr

namespace ServerFlags

/-- Replace the shortcut for archives by what it stands for. -/
def expandArchive (flags : ServerFlags) : ServerFlags :=
  if flags.archive then
    { flags with recursive := true, links := true, perms := true, times := true,
                 group := true, owner := true, devices := true, specials := true }
  else
    flags

/-- What a letter of a bundle sets. -/
def setLetter (flags : ServerFlags) (c : Char) : ServerFlags :=
  match c with
  | 'v' => { flags with verbose := flags.verbose + 1 }
  | 'q' => { flags with quiet := true }
  | 'a' => { flags with archive := true }
  | 'r' => { flags with recursive := true }
  | 'l' => { flags with links := true }
  | 'p' => { flags with perms := true }
  | 't' => { flags with times := true }
  | 'g' => { flags with group := true }
  | 'o' => { flags with owner := true }
  | 'D' => { flags with devices := true, specials := true }
  | 'c' => { flags with checksum := true }
  | 'u' => { flags with update := true }
  | 'H' => { flags with hardLinks := true }
  | 'L' => { flags with copyLinks := true }
  | 'k' => { flags with keepDirlinks := true }
  | 'W' => { flags with wholeFile := true }
  | 'n' => { flags with dryRun := true }
  | 'R' => { flags with relative := true }
  | 'i' => { flags with itemize := true }
  | 'f' => { flags with fuzzy := true }
  | 'x' =>
    -- the first one stays on one file system, the second one sets the attributes
    { flags with xattrs := if flags.oneFileSystem then true else flags.xattrs,
                 oneFileSystem := true }
  | 'C' => { flags with cvsExclude := true }
  | 'I' => { flags with ignoreTimes := true }
  | 'm' => { flags with pruneEmptyDirs := true }
  | 's' => { flags with protectArgs := true }
  | 'z' => { flags with compress := true }
  | other => { flags with unknown := flags.unknown ++ [other] }

/-- What the bytes of a bundle set. What follows an `e` is kept as it is. -/
def setLetters (flags : ServerFlags) : List UInt8 → ServerFlags
  | [] => flags
  | b :: bytes =>
    if Char.ofUInt8 b = 'e' then
      { flags with eTail := (Str.fromUtf8 bytes).getD [] }
    else
      (flags.setLetter (Char.ofUInt8 b)).setLetters bytes

/-- Parse a bundle of letters. -/
def parse (arg : Str) : ServerFlags :=
  match arg with
  | '-' :: letters => (setLetters {} (Str.bytes letters)).expandArchive
  | _ => {}

/-- Add what a bundle sets. -/
def merge (flags f : ServerFlags) : ServerFlags :=
  { flags with
    verbose := flags.verbose + f.verbose
    quiet := flags.quiet || f.quiet
    archive := flags.archive || f.archive
    recursive := flags.recursive || f.recursive
    links := flags.links || f.links
    perms := flags.perms || f.perms
    times := flags.times || f.times
    group := flags.group || f.group
    owner := flags.owner || f.owner
    devices := flags.devices || f.devices
    specials := flags.specials || f.specials
    checksum := flags.checksum || f.checksum
    update := flags.update || f.update
    hardLinks := flags.hardLinks || f.hardLinks
    copyLinks := flags.copyLinks || f.copyLinks
    keepDirlinks := flags.keepDirlinks || f.keepDirlinks
    wholeFile := flags.wholeFile || f.wholeFile
    dryRun := flags.dryRun || f.dryRun
    relative := flags.relative || f.relative
    itemize := flags.itemize || f.itemize
    fuzzy := flags.fuzzy || f.fuzzy
    xattrs := flags.xattrs || f.xattrs
    cvsExclude := flags.cvsExclude || f.cvsExclude
    ignoreTimes := flags.ignoreTimes || f.ignoreTimes
    oneFileSystem := flags.oneFileSystem || f.oneFileSystem
    protectArgs := flags.protectArgs || f.protectArgs
    compress := flags.compress || f.compress
    ignoreExisting := flags.ignoreExisting || f.ignoreExisting
    pruneEmptyDirs := flags.pruneEmptyDirs || f.pruneEmptyDirs
    eTail := if f.eTail = [] then flags.eTail else f.eTail
    unknown := f.unknown.foldl
      (fun unknown c => if c ∈ unknown then unknown else unknown ++ [c]) flags.unknown }

end ServerFlags

/-! ### Sizes -/

/-- The number of bytes that a text says, when `scaled` reads a decimal number and multiplies it
by a unit. -/
def parseSizeStr (scaled : Str → ℤ → Option ℤ) (s : Str) : Option ℤ :=
  let s := Str.trim s
  let s := if (s.getLast? = some 'b' ∨ s.getLast? = some 'B') ∧ 1 < s.length then s.dropLast else s
  match s.getLast? with
  | none => none
  | some c =>
    if c = 'k' ∨ c = 'K' then scaled s.dropLast 1024
    else if c = 'm' ∨ c = 'M' then scaled s.dropLast (1024 * 1024)
    else if c = 'g' ∨ c = 'G' then scaled s.dropLast (1024 * 1024 * 1024)
    else if c = 't' ∨ c = 'T' then scaled s.dropLast (1024 * 1024 * 1024 * 1024)
    else scaled s 1

/-! ### Arguments -/

namespace ServerFlags

variable (scaled : Str → ℤ → Option ℤ)

/-- What a long option without its hyphens sets. -/
def setLong (flags : ServerFlags) (rest : Str) : ServerFlags :=
  if rest = "numeric-ids".toList then
    flags
  else if rest = "delete".toList ∨ rest = "delete-before".toList ∨
      rest = "delete-during".toList ∨ rest = "delete-after".toList then
    { flags with delete := true }
  else if rest = "ignore-existing".toList then
    { flags with ignoreExisting := true }
  else if rest = "prune-empty-dirs".toList then
    { flags with pruneEmptyDirs := true }
  else if "link-dest=".toList <+: rest then
    { flags with linkDest := flags.linkDest ++ [rest.drop "link-dest=".length] }
  else if "files-from=".toList <+: rest then
    { flags with filesFrom := some (rest.drop "files-from=".length) }
  else if "max-size=".toList <+: rest then
    { flags with maxSize := parseSizeStr scaled (rest.drop "max-size=".length) }
  else if "min-size=".toList <+: rest then
    { flags with minSize := parseSizeStr scaled (rest.drop "min-size=".length) }
  else
    flags

/-- Take one argument: a long option, a bundle of letters, or a path. -/
def takeArg (s : ServerFlags × List Str) (arg : Str) : ServerFlags × List Str :=
  match arg with
  | '-' :: '-' :: rest => (s.1.setLong scaled rest, s.2)
  | '-' :: c :: letters => (s.1.merge (parse ('-' :: c :: letters)), s.2)
  | path => (s.1, s.2 ++ [path])

/-- Parse the arguments of the server: what they set, and the paths. -/
def parseArgv (args : List Str) : ServerFlags × List Str :=
  let s := args.foldl (takeArg scaled) ({}, [])
  (s.1.expandArchive, s.2)

end ServerFlags
