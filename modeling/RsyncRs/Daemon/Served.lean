import RsyncRs.Daemon.Connection
import RsyncRs.Fs.Descends
import RsyncRs.Local.Transfer
import RsyncRs.Options.ServerFlags
import RsyncRs.Pipeline.SourceFiles

/-!
# The paths of a connection

The server takes paths from its arguments as they are: those that it enters, lists and reads when
it sends, and those into which it receives. Nothing holds them back in the directory of the module.
-/

open FsPath

/-! ### Paths in the arguments -/

/-- The paths that the server takes from its arguments. -/
structure ServerPaths where
  /-- The directory that it enters before it sends. -/
  base : FsPath
  /-- What it sends, from that directory. -/
  sources : List FsPath
  /-- The list of what is sent of the first source. -/
  filesFrom : Option FsPath
  /-- The directory into which it receives. -/
  dest : FsPath
  /-- The directories with which it compares, from there. -/
  linkDest : List FsPath

/-- The directory to enter and the sources. -/
def baseAndSources : List FsPath → FsPath × List FsPath
  | [] => ([dot], [[dot]])
  | [p] => (p, [p])
  | base :: sources => (base, sources)

/-- The paths in the arguments. The last argument is where the server receives, whatever it is. -/
def ServerPaths.ofArgs (scaled : Str → ℤ → Option ℤ) (args : List Arg) : ServerPaths :=
  let (flags, paths) := ServerFlags.parseArgv scaled (args.map strOf)
  let (base, sources) := baseAndSources (paths.map Str.bytes)
  { base, sources
    filesFrom := flags.filesFrom.map Str.bytes
    dest := args.getLast?.getD [dot]
    linkDest := flags.linkDest.map Str.bytes }

/-! ### What is sent -/

/-- What a server that sends meets on its disk. -/
structure ServerView where
  /-- The directory can be entered. -/
  entered : Bool
  /-- What the sources are. -/
  sources : List SourceArg
  /-- The text of the list, if it can be read. -/
  list : Option Str
  /-- What is at a path. -/
  look : FsPath → Option FsTree

namespace ServerPaths

variable (paths : ServerPaths) (view : ServerView) (walk : WalkArgs)

/-- The directory in which the server works when it sends. -/
def cwd (root : Location) : Location :=
  if view.entered then locate root paths.base else root

/-- The paths that the list names, if there is one. -/
def lines : List FsPath :=
  match paths.filesFrom, view.list with
  | some _, some text => text.lines.filterMap pathOfLine
  | _, _ => []

/-- The entries that the server lists. -/
def entries : List Found :=
  match paths.filesFrom with
  | none => view.sources.flatMap (·.serverEntries walk)
  | some _ =>
    let base := paths.sources.headD [dot]
    (paths.lines view).flatMap fun rel => (view.look (base.join rel)).toList.flatMap
      (walk.listed base rel)

/-- What the server works on when it sends. -/
def sends (args : SenderArgs) (groups : List ((ℕ × ℕ) × List ℕ)) (hardLinks : Bool) :
    SenderArgs :=
  { args with flist := listFound groups hardLinks (paths.entries view walk)
              baseDir := SourceArg.serverBaseDir view.sources }

end ServerPaths

/-! ### Paths that stay in the module -/

/-- What a server that works on `args` enters, lists and reads when it sends is in the
directory. -/
structure SendsWithin (root : Location) (paths : ServerPaths) (view : ServerView)
    (walk : WalkArgs) (args : SenderArgs) : Prop where
  base : root <+: locate root paths.base
  sources : ∀ p ∈ paths.sources, root <+: locate (paths.cwd view root) p
  filesFrom : ∀ p ∈ paths.filesFrom, root <+: locate (paths.cwd view root) p
  entries : ∀ e ∈ paths.entries view walk, root <+: locate (paths.cwd view root) e.origin
  opens : ∀ ndx p, args.opens ndx = some p → root <+: locate (paths.cwd view root) p

/-- Where a server receives, and with what it compares, is in the directory. -/
structure ReceivesWithin (root : Location) (paths : ServerPaths) : Prop where
  dest : root <+: locate root paths.dest
  linkDest : ∀ p ∈ paths.linkDest, root <+: locate root (paths.dest.join p)

/-- The paths that a server uses when it sends descend. -/
structure ServerPaths.SendsDown (paths : ServerPaths) (view : ServerView) : Prop where
  base : Descends paths.base
  sources : ∀ p ∈ paths.sources, Descends p
  filesFrom : ∀ p ∈ paths.filesFrom, Descends p
  lines : ∀ rel ∈ paths.lines view, Descends rel

/-- The paths that a server uses when it receives descend. -/
structure ServerPaths.ReceivesDown (paths : ServerPaths) : Prop where
  dest : Descends paths.dest
  linkDest : ∀ p ∈ paths.linkDest, Descends p

theorem ServerPaths.ReceivesDown.within
    {paths : ServerPaths} (h : paths.ReceivesDown) (root : Location) :
  ReceivesWithin root paths
  := by
  have hdest := h.dest.locate root
  refine ⟨hdest, fun p hp => ?_⟩
  exact hdest.trans ((h.linkDest p hp).join root paths.dest)

/-- The path of an entry descends, and its file is in the directory. -/
structure Found.Below (root cwd : Location) (e : Found) : Prop where
  origin : root <+: locate cwd e.origin
  path : Descends e.info.path

variable {root cwd : Location} {e : Found}

theorem Found.Leads.descends
    (h : e.Leads) :
  Descends e.info.path
  := by
  refine ⟨h.relative, fun place => ?_⟩
  rw [h.path]
  apply List.prefix_append

/-! ### Entries -/

/-- The place of a walk is in the directory, and its path descends. -/
structure WalkPlace.Below (root cwd : Location) (place : WalkPlace) : Prop where
  dir : root <+: locate cwd place.dir
  rel : Descends place.rel

theorem WalkPlace.Below.enter
    {place : WalkPlace} (h : place.Below root cwd) (name : EntryName) :
  (place.enter name).Below root cwd
  := by
  refine ⟨?_, ?_⟩
  · exact h.dir.trans (name.2.descends.join cwd place.dir)
  · rw [WalkPlace.enter]
    dsimp only
    by_cases hrel : place.rel = []
    · rw [if_pos hrel]
      exact name.2.lossy.descends
    · rw [if_neg hrel]
      exact h.rel.concat hrel name.2.lossy

theorem Found.MadeAt.below
    (h : e.MadeAt (WalkPlace.Below root cwd)) :
  e.Below root cwd
  := by
  obtain ⟨place, node, m, hplace, rfl⟩ := h
  refine ⟨hplace.dir, ?_⟩
  rw [WalkPlace.found, path_relInfo hplace.rel.relative]
  exact hplace.rel

/-- What a line names is below the source from which the list is read. -/
theorem WalkArgs.below_listed
    (args : WalkArgs) {base rel : FsPath} (hbase : root <+: locate cwd base) (hrel : Descends rel)
    (node : FsTree) :
  ∀ e ∈ args.listed base rel node, e.Below root cwd
  := by
  intro e he
  apply Found.MadeAt.below
  have hplace : WalkPlace.Below root cwd (.ofLine base rel) :=
    ⟨hbase.trans (hrel.join cwd base), hrel⟩
  refine madeAt_list hplace ?_ e he
  cases node with
  | dir attrs entries =>
      cases args.recursive with
      | true => exact madeAt_walkSourceDir (fun _ name h => h.enter name) hplace entries
      | false => simp
  | _ => exact List.forall_mem_nil _

/-- What is listed for a source is in the directory when the source is. -/
theorem SourceArg.prefix_origin
    (s : SourceArg) (args : WalkArgs) (h : root <+: locate cwd s.arg) :
  ∀ e ∈ s.serverEntries args, root <+: locate cwd e.origin
  := by
  intro e he
  unfold serverEntries foundEntries at he
  split at he
  · cases htarget : s.target with
    | none =>
        rw [htarget] at he
        cases he
    | some target =>
        rw [htarget, Option.map_some, Option.getD_some] at he
        rcases List.mem_append.mp he with he | he
        · obtain ⟨m, -, rfl⟩ := Option.map_eq_some_iff.mp (Option.mem_toList.mp he)
          exact h
        · cases target with
          | dir attrs entries =>
              have hplace : (WalkPlace.start s.arg).Below root cwd := ⟨h, Descends.nil⟩
              exact (WalkArgs.madeAt_walkSourceDir (fun _ name h => h.enter name) hplace
                entries e he).below.origin
          | _ => cases he
  · obtain ⟨node, -, hm⟩ := Option.bind_eq_some_iff.mp (Option.mem_toList.mp he)
    obtain ⟨m, -, rfl⟩ := Option.map_eq_some_iff.mp hm
    exact h

variable {paths : ServerPaths} {view : ServerView} (walk : WalkArgs)

theorem ServerPaths.SendsDown.prefix_cwd
    (h : paths.SendsDown view) (root : Location) :
  root <+: paths.cwd view root
  := by
  unfold ServerPaths.cwd
  split
  · exact h.base.locate root
  · exact List.prefix_rfl

/-- All entries that the server lists are below the directory. -/
theorem ServerPaths.SendsDown.below_entries
    (h : paths.SendsDown view) (hview : view.sources.map (·.arg) = paths.sources)
    (root : Location) :
  ∀ e ∈ paths.entries view walk, e.Below root (paths.cwd view root)
  := by
  have hcwd := h.prefix_cwd root
  intro e he
  unfold ServerPaths.entries at he
  split at he
  · obtain ⟨s, hs, he⟩ := List.mem_flatMap.mp he
    have harg : s.arg ∈ paths.sources := hview ▸ List.mem_map_of_mem hs
    have hplace := hcwd.trans ((h.sources _ harg).locate _)
    exact ⟨s.prefix_origin walk hplace e he, (s.leads_serverEntries walk e he).descends⟩
  · dsimp only at he
    obtain ⟨rel, hrel, he⟩ := List.mem_flatMap.mp he
    obtain ⟨node, -, he⟩ := List.mem_flatMap.mp he
    have hbase : root <+: locate (paths.cwd view root) (paths.sources.headD [dot]) := by
      cases hsources : paths.sources with
      | nil => exact hcwd.trans (Descends.dot.locate _)
      | cons p ps =>
          apply hcwd.trans ((h.sources p _).locate _)
          rw [hsources]
          apply List.mem_cons_self
    exact walk.below_listed hbase (h.lines rel hrel) node e he

/-- The directory in which the server looks files up is in the directory. -/
theorem prefix_serverBaseDir
    {sources : List SourceArg} (h : ∀ s ∈ sources, Descends s.arg) (cwd : Location) :
  cwd <+: locate cwd (SourceArg.serverBaseDir sources)
  := by
  cases sources with
  | nil => exact Descends.dot.locate cwd
  | cons s sources =>
      have hs := h s List.mem_cons_self
      unfold SourceArg.serverBaseDir
      dsimp only
      split
      · next hfile =>
        obtain ⟨m, hm, hregular⟩ := (Option.any_eq_true _ _).mp hfile
        obtain ⟨node, htarget, hm⟩ := Option.bind_eq_some_iff.mp hm
        have hdir : s.target.any FsTree.isDir = false := by
          rw [FsTree.isFile_metadata hm] at hregular
          rw [htarget, Option.any_some, FsTree.isDir, of_decide_eq_true hregular]
          rfl
        obtain ⟨name, hname, -⟩ := s.named hdir (Or.inr (htarget ▸ rfl))
        obtain ⟨q, hq, hdown⟩ := hs.parent hname
        rw [SourceArg.parentDir, hq, Option.getD_some]
        exact hdown.locate cwd
      · exact hs.locate cwd

/-- Arguments that descend keep a server that sends in the directory. -/
theorem ServerPaths.SendsDown.within
    (h : paths.SendsDown view) (hview : view.sources.map (·.arg) = paths.sources)
    (root : Location) (args : SenderArgs) (groups : List ((ℕ × ℕ) × List ℕ)) (hardLinks : Bool) :
  SendsWithin root paths view walk (paths.sends view walk args groups hardLinks)
  := by
  have hcwd := h.prefix_cwd root
  have hbelow := h.below_entries walk hview root
  refine ⟨h.base.locate root, fun p hp => hcwd.trans ((h.sources p hp).locate _),
    fun p hp => hcwd.trans ((h.filesFrom p hp).locate _), fun e he => (hbelow e he).origin, ?_⟩
  intro ndx p hopens
  have hlist : (paths.sends view walk args groups hardLinks).flist =
    listFound groups hardLinks (paths.entries view walk) := rfl
  rw [opens_eq hlist] at hopens
  obtain ⟨e, he, hp⟩ := Option.bind_eq_some_iff.mp hopens
  have hmem : e ∈ paths.entries view walk := List.mem_mergeSort.mp (List.mem_of_getElem? he)
  have hdir : ∀ s ∈ view.sources, Descends s.arg := by
    intro s hs
    apply h.sources
    rw [← hview]
    exact List.mem_map_of_mem hs
  split at hp
  · cases hp
    exact (hcwd.trans (prefix_serverBaseDir hdir _)).trans ((hbelow e hmem).path.join _ _)
  · cases hp

/-! ### Connections -/

variable {cfg : DaemonConfig} {motd : Option Str} {enter : Str → Bool} {modname : Str}
  {reader : BufReader} {m : DaemonModule} {protocol : ℕ} {args : List Arg} {rest : List UInt8}

/-- A module that is only read is not received into. -/
theorem writable_of_served
    (hm : cfg.find modname = some m) (hserved : (openModule cfg motd enter modname reader).2 =
      .served protocol args rest) (hreceives : bytesOf "--sender" ∉ args) :
  m.readOnly = false
  := by
  have hending : (serveModule enter m reader.source).2 = .served protocol args rest := by
    unfold openModule at hserved
    split at hserved
    · cases hserved
    split at hserved
    · cases hserved
    · rwa [hm] at hserved
  rw [serveModule_ending] at hending
  unfold handOff at hending
  split at hending
  · cases hending
  split at hending
  · cases hending
  · next hwrite =>
    cases hending
    by_contra hreadOnly
    exact hwrite ⟨Bool.not_eq_false _ ▸ hreadOnly, hreceives⟩

/-- Whatever a client sends after the name of a module, the server enters, lists, reads and writes
in the directory of the module when the paths that it uses descend. Only a module that may be
written is received into. -/
theorem stays_in_module
    (hm : cfg.find modname = some m) (hserved : (openModule cfg motd enter modname reader).2 =
      .served protocol args rest) (cwd : Location) (scaled : Str → ℤ → Option ℤ) :
  let paths := ServerPaths.ofArgs scaled args
  let root := locate cwd m.path.bytes
  if bytesOf "--sender" ∈ args then
    ∀ view : ServerView, view.sources.map (·.arg) = paths.sources → paths.SendsDown view →
      ∀ walk sender groups hardLinks,
        SendsWithin root paths view walk (paths.sends view walk sender groups hardLinks)
  else
    m.readOnly = false ∧ (paths.ReceivesDown → ReceivesWithin root paths)
  := by
  dsimp only
  split
  · exact fun view hview hdown walk sender groups hardLinks =>
      hdown.within walk hview _ sender groups hardLinks
  · next hreceives =>
    exact ⟨writable_of_served hm hserved hreceives, fun hdown => hdown.within _⟩

/-! ### Connections that stay and that do not -/

/-- What a client sends after the name of a module. -/
theorem openModule_argv
    (hm : cfg.find modname = some m) (haddress : Addressable modname)
    (hargs : ∀ a ∈ args, IsArg a) (hutf8 : ∀ a ∈ args, isUtf8 a = true) (sizes : List ℕ) :
  (openModule cfg motd enter modname { source := ⟨argvBytes args, sizes⟩ }).2 =
    (handOff enter protocolVersion m (clientArgs modname.bytes args) []).2
  := by
  have hcommand : ¬ (modname = [] ∨ modname = "#list".toList) := by
    rintro (h | h)
    · exact haddress.1 h
    · apply haddress.2
      rw [h]
      rfl
  have hname : m.name = modname := by
    simpa using List.find?_some hm
  have hsplit := splitArgs_argvBytes hargs []
  rw [List.append_nil] at hsplit
  obtain ⟨hread, htail⟩ := readArgs_eq modname.bytes ⟨argvBytes args, sizes⟩ {}
  rw [hsplit, List.nil_append, moduleArgs_false] at hread
  rw [hsplit] at htail
  rw [openModule, if_neg hcommand, if_neg haddress.2, hm]
  dsimp only
  rw [serveModule_ending, hname, hread, htail, (map_lossy_eq_iff args).mpr hutf8]

/-- Arguments of characters of seven bits. -/
theorem argv_ascii
    (h : ∀ a ∈ args, a ≠ [] ∧ ∀ b ∈ a, b ≠ 0 ∧ b < 0x80) :
  (∀ a ∈ args, IsArg a) ∧ ∀ a ∈ args, isUtf8 a = true
  := by
  constructor
  · intro a ha
    exact ⟨(h a ha).1, fun hzero => ((h a ha).2 0 hzero).1 rfl⟩
  · exact fun a ha => isUtf8_ascii fun b hb => ((h a ha).2 b hb).2

/-- A client that asks for a directory in the module. -/
theorem served_directory :
  (openModule { modules := [dataModule] } none (fun _ => true) "data".toList
      { source := ⟨argvBytes [bytesOf "--server", bytesOf "--sender", bytesOf ".",
        bytesOf "data/x"], []⟩ }).2 =
    .served 31 [bytesOf "--server", bytesOf "--sender", bytesOf ".", bytesOf "x"] []
  := by
  obtain ⟨hargs, hutf8⟩ := argv_ascii (show ∀ a ∈ [bytesOf "--server", bytesOf "--sender",
    bytesOf ".", bytesOf "data/x"], a ≠ [] ∧ ∀ b ∈ a, b ≠ 0 ∧ b < 0x80 by decide +kernel)
  rw [openModule_argv rfl ⟨by decide, by decide⟩ hargs hutf8]
  decide +kernel

theorem stays_in_module_directory :
  let name : EntryName := ⟨[0x79], by decide, by decide, by decide, by decide⟩
  let view : ServerView :=
    { entered := true, sources := [dirWithFile (bytesOf "x") name], list := none,
      look := fun _ => none }
  let paths := ServerPaths.ofArgs (fun _ _ => none)
    [bytesOf "--server", bytesOf "--sender", bytesOf ".", bytesOf "x"]
  SendsWithin [bytesOf "srv", bytesOf "data"] paths view {}
    (paths.sends view {} ⟨{}, [], 31, 0, false⟩ [] false)
  := by
  intro name view paths
  have hstays := stays_in_module rfl served_directory [] fun _ _ => none
  dsimp only at hstays
  rw [if_pos (by decide +kernel)] at hstays
  have hpaths : paths.base = bytesOf "." ∧ paths.sources = [bytesOf "x"] ∧
      paths.filesFrom = none := by
    decide +kernel
  obtain ⟨hbase, hsources, hlist⟩ := hpaths
  have hroot : locate [] dataModule.path.bytes = [bytesOf "srv", bytesOf "data"] := by
    decide +kernel
  rw [hroot] at hstays
  apply hstays view
  · exact hsources.symm
  · refine ⟨?_, ?_, ?_, ?_⟩
    · rw [hbase]
      exact Descends.of_noParent (by decide +kernel) (by decide +kernel)
    · rw [hsources]
      intro p hp
      rw [List.mem_singleton.mp hp]
      exact Descends.of_noParent (by decide +kernel) (by decide +kernel)
    · rw [hlist]
      simp
    · simp [ServerPaths.lines]

/-- A client that asks for an absolute path, and one that writes beside the module. -/
theorem not_stays_in_module :
  (∃ args, (openModule { modules := [dataModule] } none (fun _ => true) "data".toList
        { source := ⟨argvBytes args, []⟩ }).2 = .served 31 args [] ∧
      bytesOf "--sender" ∈ args ∧ ∀ view walk sender,
        ¬ SendsWithin (locate [] dataModule.path.bytes)
          (ServerPaths.ofArgs (fun _ _ => none) args) view walk sender) ∧
    ∃ args, (openModule { modules := [{ dataModule with readOnly := false }] } none
        (fun _ => true) "data".toList { source := ⟨argvBytes args, []⟩ }).2 = .served 31 args [] ∧
      bytesOf "--sender" ∉ args ∧
        ¬ ReceivesWithin (locate [] dataModule.path.bytes)
          (ServerPaths.ofArgs (fun _ _ => none) args)
  := by
  refine ⟨⟨[bytesOf "--server", bytesOf "--sender", bytesOf ".", bytesOf "/etc"], ?_,
    by decide +kernel, ?_⟩, [bytesOf "--server", bytesOf ".", bytesOf "../other"], ?_,
    by decide +kernel, ?_⟩
  · obtain ⟨hargs, hutf8⟩ := argv_ascii (show ∀ a ∈ [bytesOf "--server", bytesOf "--sender",
      bytesOf ".", bytesOf "/etc"], a ≠ [] ∧ ∀ b ∈ a, b ≠ 0 ∧ b < 0x80 by decide +kernel)
    rw [openModule_argv rfl ⟨by decide, by decide⟩ hargs hutf8]
    decide +kernel
  · intro view walk sender hwithin
    have hetc : ∀ cwd, locate cwd (bytesOf "/etc") = FsPath.walk [] (bytesOf "/etc") :=
      fun cwd => congrArg (FsPath.walk · _) (if_pos (by decide +kernel))
    have hsource := hwithin.sources (bytesOf "/etc") (by decide +kernel)
    rw [hetc] at hsource
    revert hsource
    decide +kernel
  · obtain ⟨hargs, hutf8⟩ := argv_ascii (show ∀ a ∈ [bytesOf "--server", bytesOf ".",
      bytesOf "../other"], a ≠ [] ∧ ∀ b ∈ a, b ≠ 0 ∧ b < 0x80 by decide +kernel)
    rw [openModule_argv rfl ⟨by decide, by decide⟩ hargs hutf8]
    decide +kernel
  · intro hwithin
    have hdest := hwithin.dest
    revert hdest
    decide +kernel
