import RsyncRs.Daemon.Dialogue
import RsyncRs.Options.RoundTrip
import RsyncRs.Pipeline.Connection

/-!
# What is asked of a daemon

A client of the daemon sends its options among its arguments, and then a path that starts with the
name of a module. The server finds the options and the path in the module.
-/

/-! ### The client -/

/-- The name of the module in a path, and what follows it. -/
def modulePath (remotePath : Str) : Str × Str :=
  (Str.splitOnce '/' remotePath).getD (remotePath, [])

/-- The path that is sent to the daemon. -/
def daemonOperand (remotePath : Str) : Str :=
  let (module, subPath) := modulePath remotePath
  if subPath = [] then
    module ++ ['/']
  else if remotePath.getLast? = some '/' then
    module ++ '/' :: subPath
  else
    module ++ '/' :: subPath.rdropWhile (· = '/')

/-- The arguments that are sent to the daemon. The first one is not among them. -/
def daemonArgv (opts : Options) (isPush : Bool) (remotePath : Str) : List Str :=
  opts.serverArgs ++ (if isPush then [] else ["--sender".toList]) ++
    [".".toList, daemonOperand remotePath]

/-- What a process finds around it. -/
structure Surroundings where
  /-- Reading a decimal number and multiplying it by a unit. -/
  scaled : Str → ℤ → Option ℤ := fun _ _ => none
  readToString : Str → Except String Str := fun _ => .error ""
  /-- What is found at some paths. -/
  sourcesAt : List Str → List SourceArg := fun _ => []
  groups : FileList → List ((ℕ × ℕ) × List ℕ) := linkGroups
  stack : ℕ := 0
  now : ℕ := 0
  pid : ℕ := 0

namespace Options

/-- The rules of a client. -/
def filterList (opts : Options) (around : Surroundings) : FilterList :=
  (FilterList.fromOptions around.readToString opts).toOption.getD {}

/-- Something is removed. -/
def deletes (opts : Options) : Bool :=
  opts.delete || opts.deleteBefore || opts.deleteDuring || opts.deleteAfter

/-- What a client pushes. -/
def sourceSide (opts : Options) (around : Surroundings) (sources : List Str) : SourceSide where
  compress := opts.compress
  checksum := opts.checksum
  preserve := opts.toPreserve
  hardLinks := opts.hardLinks
  delete := opts.deletes
  walk :=
    { recursive := opts.recursive, filter := opts.filterList around,
      maxSize := opts.maxSize.bind (parseSizeStr around.scaled),
      minSize := opts.minSize.bind (parseSizeStr around.scaled),
      pruneEmptyDirs := opts.pruneEmptyDirs }
  sources := around.sourcesAt sources
  groups := around.groups
  now := around.now
  pid := around.pid

/-- Where a client pulls to. -/
def destSide (opts : Options) (around : Surroundings) (dest : Str) : DestSide where
  compress := opts.compress
  preserve := opts.toPreserve
  filter := opts.filterList around
  delete := opts.deletes
  dryRun := opts.dryRun
  stack := around.stack
  options :=
    { flist := {}, destDir := dest.bytes, csumType := .md5, protocol := 0, checksumSeed := 0,
      inplace := opts.inplace, useChecksum := opts.checksum, update := opts.update,
      ignoreExisting := opts.ignoreExisting,
      maxSize := opts.maxSize.bind (parseSizeStr around.scaled),
      minSize := opts.minSize.bind (parseSizeStr around.scaled),
      linkDest := opts.linkDest.map Str.bytes, pid := around.pid }
  now := around.now
  pid := around.pid

end Options

/-! ### The server -/

namespace Daemon

/-- The paths to send, behind the directory that they are in. -/
def sourcePaths : List Str → List Str
  | [] => [".".toList]
  | [path] => [path]
  | _ :: paths => paths

/-- What the server of a pull sends. -/
def sourceSide (around : Surroundings) (flags : ServerFlags) (paths : List Str) : SourceSide where
  compress := flags.compress
  checksum := flags.checksum
  preserve := flags.toPreserve
  hardLinks := flags.hardLinks
  walk :=
    { recursive := flags.recursive, maxSize := flags.maxSize, minSize := flags.minSize,
      pruneEmptyDirs := flags.pruneEmptyDirs }
  sources := around.sourcesAt (sourcePaths paths)
  groups := around.groups
  now := around.now
  pid := around.pid

/-- Where the server of a push receives. -/
def destSide (around : Surroundings) (flags : ServerFlags) (args : List Str) : DestSide where
  compress := flags.compress
  preserve := flags.toPreserve
  delete := flags.delete
  stack := around.stack
  options :=
    { flist := {}, destDir := (args.getLastD ".".toList).bytes, csumType := .md5, protocol := 0,
      checksumSeed := 0, useChecksum := flags.checksum, update := flags.update,
      ignoreExisting := flags.ignoreExisting, maxSize := flags.maxSize,
      minSize := flags.minSize, linkDest := flags.linkDest.map Str.bytes, pid := around.pid }
  now := around.now
  pid := around.pid

end Daemon

/-! ### The arguments -/

theorem strOf_bytes
    (s : Str) :
  strOf s.bytes = s
  := by
  rw [strOf, Str.fromUtf8_bytes, Option.getD_some]

theorem bytes_eq_nil
    {s : Str} (h : s.bytes = []) :
  s = []
  := by
  rw [← strOf_bytes s, h]
  rfl

/-- The path is sent as it was given, with a slash behind the module. -/
theorem daemonOperand_eq
    (remotePath : Str) :
  daemonOperand remotePath = (modulePath remotePath).1 ++ '/' :: (modulePath remotePath).2
  := by
  unfold daemonOperand modulePath
  cases hsplit : Str.splitOnce '/' remotePath with
  | none => rfl
  | some parts =>
      obtain ⟨module, subPath⟩ := parts
      obtain ⟨rfl, -⟩ := Str.splitOnce_eq_some.mp hsplit
      dsimp only [Option.getD_some]
      split_ifs with hsub hslash
      · rw [hsub]
      · rfl
      · have hlast : (module ++ '/' :: subPath).getLast? = subPath.getLast? := by
          rw [List.getLast?_append_of_ne_nil _ (List.cons_ne_nil _ _), List.getLast?_cons,
            List.getLast?_eq_some_getLast hsub]
          rfl
        have htrim : subPath.rdropWhile (· = '/') = subPath := by
          rw [List.rdropWhile_eq_self_iff]
          intro hne hend
          rw [hlast, List.getLast?_eq_some_getLast hne, decide_eq_true_eq.mp hend] at hslash
          exact hslash rfl
        rw [htrim]

/-- The path that the server finds. -/
def servedPath (subPath : Str) : Str :=
  if subPath = [] then ".".toList else subPath

/-- The name of the module is taken off a path. -/
theorem stripModule_operand
    (module subPath : Str) :
  stripModule module.bytes (Str.bytes (module ++ '/' :: subPath)) = (servedPath subPath).bytes
  := by
  have hbytes : Str.bytes (module ++ '/' :: subPath) = module.bytes ++ [sep] ++ subPath.bytes := by
    rw [← List.singleton_append, ← List.append_assoc, Str.bytes_append, Str.bytes_append]
    rfl
  have hlong : ¬ (Str.bytes (module ++ '/' :: subPath) = module.bytes ∨
      Str.bytes (module ++ '/' :: subPath) = (module.bytes ++ [sep]).rdropWhile (· = sep)) := by
    have hshort : ((module.bytes ++ [sep]).rdropWhile (· = sep)).length ≤ module.bytes.length := by
      rw [List.rdropWhile_concat_pos _ _ _ (by decide)]
      exact (List.rdropWhile_prefix _ _).length_le
    have hlength := congrArg List.length hbytes
    rw [List.length_append, List.length_append, List.length_singleton] at hlength
    rintro (h | h)
    · rw [h] at hlength
      omega
    · rw [h] at hlength
      omega
  have hprefix : module.bytes ++ [sep] <+: Str.bytes (module ++ '/' :: subPath) :=
    hbytes ▸ List.prefix_append _ _
  unfold stripModule servedPath
  dsimp only
  rw [if_neg hlong, if_pos hprefix, hbytes, List.drop_left]
  by_cases hsub : subPath = []
  · rw [if_pos hsub, hsub]
    rfl
  · rw [if_neg hsub, if_pos fun h => hsub (bytes_eq_nil h)]

/-- The module is taken off what comes after the dot. -/
theorem clientArgs_append
    (name : List UInt8) {pre : List Arg} (h : dotArg ∉ pre) (after : List Arg) :
  clientArgs name (pre ++ dotArg :: after) = pre ++ dotArg :: after.map (stripModule name)
  := by
  have hpre : ∀ a ∈ pre, decide (a ≠ dotArg) = true := by
    intro a ha
    exact decide_eq_true fun heq => h (heq ▸ ha)
  unfold clientArgs
  rw [List.takeWhile_append_of_pos hpre, List.dropWhile_append_of_pos hpre,
    List.takeWhile_cons_of_neg (by simp), List.dropWhile_cons_of_neg (by simp), List.append_nil]

/-- The server has the arguments of the client, and the path in the module. -/
theorem arguments_arrive
    {opts : Options} (isSender : Bool) (module subPath : Str)
    (hrules : ∀ rule ∈ opts.filter, ServerFlags.isPath rule = false) :
  clientArgs module.bytes
      ((opts.serverArgv isSender (module ++ '/' :: subPath)).map Str.bytes) =
    (opts.serverArgv isSender (servedPath subPath)).map Str.bytes
  := by
  obtain ⟨pre, hargv⟩ : ∃ pre, ∀ operand,
      opts.serverArgv isSender operand = pre ++ [".".toList, operand] := ⟨_, fun _ => rfl⟩
  have hpaths : pre.filter ServerFlags.isPath = [] := by
    have h := @Options.paths_serverArgv opts isSender [] rfl
    have hnone : opts.filter.filter ServerFlags.isPath = [] := by
      rw [List.filter_eq_nil_iff]
      intro rule hrule
      rw [hrules rule hrule]
      decide
    have hsome : [".".toList, []].filter ServerFlags.isPath = [".".toList, []] := by decide
    rw [hargv, List.filter_append, hnone, hsome] at h
    exact List.append_cancel_right h
  have hdot : dotArg ∉ pre.map Str.bytes := by
    intro hmem
    obtain ⟨arg, harg, heq⟩ := List.mem_map.mp hmem
    have hsame : arg = ".".toList := by
      rw [← strOf_bytes arg, heq]
      decide +kernel
    exact List.filter_eq_nil_iff.mp hpaths arg harg (hsame ▸ rfl)
  have hcut := clientArgs_append module.bytes hdot [Str.bytes (module ++ '/' :: subPath)]
  rw [List.map_singleton, stripModule_operand] at hcut
  have hdotArg : Str.bytes ".".toList = dotArg := by decide
  rw [hargv, hargv, List.map_append, List.map_cons, List.map_singleton, hdotArg, hcut,
    List.map_append, List.map_cons, List.map_singleton, hdotArg]

theorem sender_mem_pull
    (opts : Options) (operand : Str) :
  "--sender".toList ∈ opts.serverArgv true operand
  := by
  simp [Options.serverArgv]

/-- A client that pushes does not ask the server to send. -/
theorem sender_notMem_push
    {opts : Options} {operand : Str} (hoperand : ServerFlags.isPath operand = true)
    (hrules : "--sender".toList ∉ opts.filter) :
  "--sender".toList ∉ opts.serverArgv false operand
  := by
  have hflags : "--sender".toList ∉ opts.flagsArg := by
    intro h
    obtain ⟨c, letters, hc, heq⟩ := Options.bundle_flagsArg h
    cases heq
    exact hc rfl
  have hlongs : "--sender".toList ∉ opts.longArgs.map Options.LongArg.arg := by
    intro h
    obtain ⟨long, hlong, heq⟩ := List.mem_map.mp h
    have hplain : Options.HasPlain "sender" opts.longArgs := by
      have hsets : ServerFlags.Sets [] ["sender"] long.arg := heq ▸ by decide
      obtain ⟨hvalue, name, hname, hlongName⟩ :=
        (Options.sets_arg long (by decide)).mp hsets
      rw [List.mem_singleton.mp hname] at hlongName
      exact ⟨long, hlong, hvalue, hlongName⟩
    unfold Options.longArgs at hplain
    simp only [Options.hasPlain_append, Options.hasPlain_flag, Options.hasPlain_valued,
      Options.hasPlain_flatMap, String.reduceEq, and_false, or_self] at hplain
  have hfilter : "--sender".toList ∉ opts.filter.flatMap Options.filterArgs := by
    intro h
    obtain ⟨rule, hrule, heq⟩ := List.mem_flatMap.mp h
    rcases List.mem_cons.mp heq with heq | heq
    · exact absurd heq (by decide)
    · rw [List.mem_singleton.mp heq] at hrules
      exact hrules hrule
  have hpaths : "--sender".toList ∉ [".".toList, operand] := by
    intro h
    rcases List.mem_cons.mp h with heq | heq
    · exact absurd heq (by decide)
    · rw [← List.mem_singleton.mp heq] at hoperand
      exact absurd hoperand (by decide)
  have hbefore : ¬ ("--sender".toList = "--server".toList ∨
      "--sender".toList ∈ opts.serverArgs) := by
    rw [Options.serverArgs, List.mem_append, List.mem_append]
    rintro (h | (h | h) | h)
    · exact absurd h (by decide)
    · exact hflags h
    · exact hlongs h
    · exact hfilter h
  rw [Options.serverArgv, List.mem_append, List.mem_append, List.mem_cons]
  rintro ((h | h) | h)
  · exact hbefore h
  · cases h
  · exact hpaths h

/-! ### Options that arrive -/

namespace Options

/-- What a server sends for these options from the path. -/
def servedSide (opts : Options) (around : Surroundings) (path : Str) : SourceSide :=
  let side := opts.sourceSide around [path]
  { side with
    preserve :=
      { uid := opts.owner, gid := opts.group, times := opts.times, devices := opts.devices }
    delete := false
    walk := { side.walk with filter := {} } }

/-- Where a server receives for these options. -/
def servedDest (opts : Options) (around : Surroundings) (path : Str) : DestSide :=
  let side := opts.destSide around path
  { side with
    preserve :=
      { uid := opts.owner, gid := opts.group, times := opts.times, devices := opts.devices }
    filter := {}
    dryRun := false
    options := { side.options with inplace := false } }

variable {opts : Options} {around : Surroundings} {path : Str}
  {parsed : ServerFlags × List Str}

theorem Arrive.compress
    (h : opts.Arrive around.scaled path parsed) :
  parsed.1.compress = opts.compress
  := h.flags _ (List.mem_of_getElem? (i := 9) rfl)

/-- The server of a pull sends what the client asks for. -/
theorem Arrive.sourceSide
    (h : opts.Arrive around.scaled path parsed) :
  Daemon.sourceSide around parsed.1 parsed.2 = opts.servedSide around path
  := by
  have hprune := h.flags _ (List.mem_of_getElem? (i := 2) rfl)
  have hrecursive := h.flags _ (List.mem_of_getElem? (i := 7) rfl)
  have hchecksum := h.flags _ (List.mem_of_getElem? (i := 8) rfl)
  have hlinks := h.flags _ (List.mem_of_getElem? (i := 10) rfl)
  dsimp only at hprune hrecursive hchecksum hlinks
  rw [Daemon.sourceSide, h.toPreserve, hprune, hrecursive, hchecksum, h.compress, hlinks, h.maxSize,
    h.minSize, h.paths]
  rfl

/-- The server of a push receives where the client asks for. -/
theorem Arrive.destSide
    (h : opts.Arrive around.scaled path parsed) {args : List Str}
    (hlast : args.getLast? = some path) :
  Daemon.destSide around parsed.1 args = opts.servedDest around path
  := by
  have hdelete := h.flags _ (List.mem_of_getElem? (i := 0) rfl)
  have hexisting := h.flags _ (List.mem_of_getElem? (i := 1) rfl)
  have hchecksum := h.flags _ (List.mem_of_getElem? (i := 8) rfl)
  have hupdate := h.flags _ (List.mem_of_getElem? (i := 11) rfl)
  dsimp only at hdelete hexisting hchecksum hupdate
  have hdir : args.getLastD ".".toList = path := by
    rw [List.getLastD_eq_getLast?, hlast, Option.getD_some]
  rw [Daemon.destSide, h.toPreserve, hdelete, hexisting, hchecksum, h.compress, hupdate, h.maxSize,
    h.minSize, h.linkDest, hdir]
  rfl

/-- A client does not need the shortcut for archives to know what is in a list. -/
theorem toPreserve_expandArchive
    (given : Options) :
  given.expandArchive.toPreserve.uid = given.expandArchive.owner ∧
    given.expandArchive.toPreserve.gid = given.expandArchive.group
  := by
  have harchive := expandArchive_archive given
  unfold toPreserve
  cases hbundle : given.expandArchive.archive with
  | false => exact ⟨Bool.or_false _, Bool.or_false _⟩
  | true =>
      obtain ⟨-, -, hgroup, howner, -⟩ := harchive hbundle
      rw [hgroup, howner]
      exact ⟨rfl, rfl⟩

/-- Both ends of a pull have the same in their lists. -/
theorem sidesAgree_pull
    (given : Options) (here there : Surroundings) (path dest : Str) :
  SidesAgree (given.expandArchive.servedSide there path) (given.expandArchive.destSide here dest)
  where
  uid := given.toPreserve_expandArchive.1.symm
  gid := given.toPreserve_expandArchive.2.symm
  checksum := rfl

/-- Both ends of a push have the same in their lists. -/
theorem sidesAgree_push
    (given : Options) (here there : Surroundings) (sources : List Str) (path : Str) :
  SidesAgree (given.expandArchive.sourceSide here sources)
    (given.expandArchive.servedDest there path)
  where
  uid := given.toPreserve_expandArchive.1
  gid := given.toPreserve_expandArchive.2
  checksum := rfl

end Options

/-! ### Requests -/

section Requests

variable {cfg : DaemonConfig} {m : DaemonModule} {given opts : Options} {remotePath : Str}
  {there : Surroundings} {isPush : Bool}

/-- The path that the server of the module finds. -/
def pathInModule (remotePath : Str) : Str :=
  servedPath (modulePath remotePath).2

/-- A path that can be asked of a daemon with these options: it starts with a module that the daemon
has, all arguments can be sent, and no rule is taken for an argument that changes what the server
has. -/
structure Requests (cfg : DaemonConfig) (there : Surroundings) (opts : Options) (isPush : Bool)
    (remotePath : Str) (m : DaemonModule) : Prop where
  oneLine : OneLine (modulePath remotePath).1
  addressable : Addressable (modulePath remotePath).1
  found : cfg.find (modulePath remotePath).1 = some m
  areArgs : ∀ a ∈ (opts.serverArgv (!isPush) (daemonOperand remotePath)).map Str.bytes, IsArg a
  rulesPass : opts.RulesPass there.scaled
  isPath : ServerFlags.isPath (pathInModule remotePath) = true
  plain : opts.compress = false
  noLinks : opts.hardLinks = false
  noList : opts.filesFrom = none

theorem serverArgv_eq
    (opts : Options) (isPush : Bool) (remotePath : Str) :
  "--server".toList :: daemonArgv opts isPush remotePath =
    opts.serverArgv (!isPush) (daemonOperand remotePath)
  := by
  cases isPush <;> rfl

/-- The arguments that the daemon reads. -/
def argsRead (opts : Options) (isPush : Bool) (remotePath : Str) : List Arg :=
  clientArgs (modulePath remotePath).1.bytes
    ((opts.serverArgv (!isPush) (daemonOperand remotePath)).map Str.bytes)

theorem Requests.accepts
    (h : Requests cfg there opts isPush remotePath m) :
  Daemon.Accepts cfg (modulePath remotePath).1 (daemonArgv opts isPush remotePath) m
    (argsRead opts isPush remotePath)
  where
  oneLine := h.oneLine
  addressable := h.addressable
  found := h.found
  areArgs := serverArgv_eq opts isPush remotePath ▸ h.areArgs
  args_eq := by
    rw [serverArgv_eq]
    rfl

/-- The arguments are those of a server for the path in the module. -/
theorem Requests.argsRead_eq
    (h : Requests cfg there opts isPush remotePath m) :
  argsRead opts isPush remotePath =
    (opts.serverArgv (!isPush) (pathInModule remotePath)).map Str.bytes
  := by
  rw [argsRead, daemonOperand_eq]
  exact arguments_arrive _ _ _ h.rulesPass.paths

theorem map_strOf_bytes
    (args : List Str) :
  (args.map Str.bytes).map strOf = args
  := by
  rw [List.map_map]
  exact (List.map_congr_left fun s _ => strOf_bytes s).trans (List.map_id' args)

/-- The options arrive at the server. -/
theorem Requests.arrive
    (h : Requests cfg there given.expandArchive isPush remotePath m) :
  given.expandArchive.Arrive there.scaled (pathInModule remotePath)
    (ServerFlags.parseArgv there.scaled
      ((argsRead given.expandArchive isPush remotePath).map strOf))
  := by
  rw [h.argsRead_eq, map_strOf_bytes]
  exact (Options.arrive_iff there.scaled given _ h.isPath).mpr h.rulesPass

theorem mem_map_bytes
    {arg : Str} {args : List Str} :
  arg.bytes ∈ args.map Str.bytes ↔ arg ∈ args
  := by
  constructor
  · intro h
    obtain ⟨other, hother, heq⟩ := List.mem_map.mp h
    have hsame := congrArg strOf heq
    rw [strOf_bytes, strOf_bytes] at hsame
    rwa [← hsame]
  · exact List.mem_map_of_mem

theorem Requests.sender_mem_iff
    (h : Requests cfg there opts isPush remotePath m) :
  Daemon.isSender (argsRead opts isPush remotePath) = true ↔
    "--sender".toList ∈ opts.serverArgv (!isPush) (pathInModule remotePath)
  := by
  have hbytes : bytesOf "--sender" = Str.bytes "--sender".toList := by decide
  have hany : Daemon.isSender (argsRead opts isPush remotePath) = true ↔
      bytesOf "--sender" ∈ argsRead opts isPush remotePath := by
    simp [Daemon.isSender]
  rw [hany, h.argsRead_eq, hbytes, mem_map_bytes]

end Requests
