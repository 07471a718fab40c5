import RsyncRs.Flist.Walk
import RsyncRs.Fs.Disk
import RsyncRs.Fs.Lookup
import RsyncRs.Pipeline.Sender

/-!
# The files that a sender opens

All entries of a list are looked up in one directory, which is found from the first source alone.
An entry of another source is found there when its path starts from the same directory, and
otherwise only through a symbolic link.
-/

open FsPath

variable {F : Flate}

/-- The file that the sender opens for a request. -/
def SenderArgs.opens (args : SenderArgs) (ndx : ℤ) : Option FsPath :=
  match args.flist.getByNdx ndx with
  | none => none
  | some fi => if fi.isRegular then some (args.baseDir.join fi.path) else none

/-- Send the content of a file, or what stands for a file that cannot be sent. -/
def Sender.sendOpened (dig : Digests) (F : Flate) (args : SenderArgs) (s : Sender) (head : SumHead)
    (sums : List SumBuf) : Option FsPath → Session FsReply Sender
  | none => do
    sendSkippedXfer head
    pure s
  | some path => do
    match ← Fs.readFile path with
    | .error _ =>
      sendSkippedXfer head
      pure s
    | .ok data =>
      sendData dig F args head sums data
      pure (s.sent data)

/-- The sender answers a request with the content of the file that it opens. -/
theorem sendFile_eq
    (dig : Digests) (args : SenderArgs) (s : Sender) (ndx : ℤ) (head : SumHead)
    (sums : List SumBuf) :
  Sender.sendFile dig F args s ndx head sums =
    Sender.sendOpened dig F args s head sums (args.opens ndx)
  := by
  unfold Sender.sendFile SenderArgs.opens
  cases args.flist.getByNdx ndx with
  | none => rfl
  | some fi =>
      dsimp only
      cases hreg : fi.isRegular with
      | false => rfl
      | true => rfl

/-! ### The file of an entry -/

/-- The entry has the names of its file as strings in its path, and they lead to the file from the
directory where the path starts. -/
structure Found.Named (e : Found) : Prop where
  nonempty : e.names ≠ []
  names : ∀ name ∈ e.names, IsName name
  path : e.info.path = ofNames (e.names.map fromUtf8Lossy)
  origin : ∀ {shape cwd l}, resolve shape cwd true e.origin = some l →
    resolve shape cwd true (e.home.join (ofNames e.names)) = some l

/-- A place below the directory in which a walk starts. -/
structure WalkPlace.Entered (place : WalkPlace) : Prop extends place.Ok where
  nonempty : place.names ≠ []
  joined : place.dir = place.home.join (ofNames place.names)

theorem WalkPlace.entered_start
    (dir : FsPath) (name : EntryName) :
  ((start dir).enter name).Entered
  where
  toOk := (ok_start dir).enter name
  nonempty := List.cons_ne_nil _ _
  joined := congrArg dir.join List.intercalate_singleton.symm

theorem WalkPlace.Entered.enter
    {place : WalkPlace} (h : place.Entered) (name : EntryName) :
  (place.enter name).Entered
  where
  toOk := h.toOk.enter name
  nonempty := List.append_ne_nil_of_right_ne_nil _ (List.cons_ne_nil _ _)
  joined := by
    rw [WalkPlace.enter, h.joined]
    exact join_ofNames_join h.names h.nonempty name.2

theorem WalkPlace.Entered.named
    {place : WalkPlace} (h : place.Entered) (node : FsTree) (m : Metadata) :
  (place.found node m).Named
  where
  nonempty := h.nonempty
  names := h.names
  path := by
    rw [WalkPlace.found, path_relInfo, h.rel]
    rw [h.rel]
    exact isAbsolute_ofNames h.isName_lossy
  origin := fun hl => by
    rw [WalkPlace.found, h.joined] at hl
    exact hl

theorem WalkArgs.named_walk
    (args : WalkArgs) (dir : FsPath) (entries : Entries) :
  ∀ e ∈ args.walkSourceDir (.start dir) entries, e.Named
  := by
  intro e he
  obtain ⟨place, node, m, hentered, rfl⟩ := madeAt_entered
    (fun place name h => h.enter name) (WalkPlace.entered_start dir) entries e he
  exact hentered.named node m

namespace SourceArg

theorem not_isRegular_foundRoot
    {s : SourceArg} {target : FsTree} {m : Metadata} (hdir : target.isDir = true)
    (hm : target.metadata = some m) :
  (s.foundRoot m).info.isRegular = false
  := by
  have htype : (s.foundRoot m).info.fileType = target.fileType := FsTree.fromMode_metadata hm
  unfold FsTree.isDir at hdir
  rw [FileInfo.isRegular, htype, of_decide_eq_true hdir]
  rfl

theorem named_foundFile
    {s : SourceArg} (hdir : s.isDir = false) (h : s.node.isSome ∨ s.target.isSome) (m : Metadata)
    (linkTarget : Option Name) :
  (s.foundFile m linkTarget).Named
  := by
  obtain ⟨name, hfile, hutf8⟩ := s.named hdir h
  have hbase : s.baseName = name := by
    rw [baseName, hfile]
    exact if_pos hutf8
  have hofNames : ofNames [name] = name := List.intercalate_singleton
  obtain ⟨hname, -⟩ := fileName_components hfile
  constructor
  · exact List.cons_ne_nil _ _
  · rw [foundFile, hbase]
    simpa using hname
  · rw [foundFile, hbase, List.map_singleton, fromUtf8Lossy_of_isUtf8 hutf8, hofNames]
    rfl
  · intro shape cwd l hl
    obtain ⟨q, hq, hjoin⟩ := @resolve_fileName shape cwd s.arg name hfile
    rw [foundFile, hbase, hofNames, parentDir, hq, Option.getD_some]
    exact hjoin hl

/-- The entries of regular files have the names of their files. -/
theorem named_foundEntries
    (s : SourceArg) (args : WalkArgs) {file : Option FsTree}
    (hfile : file.isSome → s.node.isSome ∨ s.target.isSome) (linkTarget : FsTree → Option Name) :
  ∀ e ∈ s.foundEntries args file linkTarget, e.info.isRegular = true → e.Named
  := by
  intro e he hregular
  unfold foundEntries at he
  cases hdir : s.isDir with
  | true =>
      rw [hdir, if_pos rfl] at he
      cases htarget : s.target with
      | none =>
          rw [htarget] at he
          cases he
      | some target =>
          rw [htarget] at he
          have htargetDir : target.isDir = true := by
            rw [isDir, htarget] at hdir
            exact hdir
          rcases List.mem_append.mp he with he | he
          · obtain ⟨m, hm, rfl⟩ := Option.map_eq_some_iff.mp (Option.mem_toList.mp he)
            rw [not_isRegular_foundRoot htargetDir hm] at hregular
            cases hregular
          · cases target with
            | dir attrs entries => exact args.named_walk s.arg entries e he
            | _ => cases he
  | false =>
      rw [hdir, if_neg Bool.false_ne_true] at he
      obtain ⟨node, rfl, hm⟩ := Option.bind_eq_some_iff.mp (Option.mem_toList.mp he)
      obtain ⟨m, -, rfl⟩ := Option.map_eq_some_iff.mp hm
      apply named_foundFile hdir (hfile rfl)

theorem named_pushEntries
    (s : SourceArg) (args : WalkArgs) :
  ∀ e ∈ s.pushEntries args, e.info.isRegular = true → e.Named
  := named_foundEntries s args Or.inl FsTree.linkTarget

theorem named_serverEntries
    (s : SourceArg) (args : WalkArgs) :
  ∀ e ∈ s.serverEntries args, e.info.isRegular = true → e.Named
  := named_foundEntries s args Or.inr fun _ => none

end SourceArg

/-! ### Where the file is looked up -/

/-- For every request, the file that the sender opens is the one that the requested entry was
made from, as long as this is there. -/
def OpensSource (d : Disk) (found : List Found) (args : SenderArgs) : Prop :=
  ∀ ndx path, args.opens ndx = some path →
    ∃ e, requested found ndx = some e ∧ ∀ l, d.place e.origin = some l → d.place path = some l

namespace Disk

/-- The directory in which a name that is joined to the path is looked up. -/
def dirPlace (d : Disk) (p : FsPath) : Option Location :=
  FsPath.dirPlace d.shape d.cwd p

/-- A symbolic link is among what the names name on their way from the directory `p`. -/
def LinkOnWay (d : Disk) (p : FsPath) (names : List Name) : Prop :=
  ∃ dir, d.dirPlace p = some dir ∧ MeetsLink d.shape dir names

/-- The names lead to a file from the directory `home`, and their strings lead there from
`baseDir`. Without links on the way both are one directory and the names are strings. Otherwise it
is a link that leads to the file. -/
def LeadsAlike (d : Disk) (baseDir home : FsPath) (names : List Name) : Prop :=
  ((∃ dir, d.dirPlace baseDir = some dir ∧ d.dirPlace home = some dir ∧
      ¬MeetsLink d.shape dir names) ∧ ∀ name ∈ names, isUtf8 name = true) ∨
    (d.LinkOnWay baseDir (names.map fromUtf8Lossy) ∨ d.LinkOnWay home names) ∧
      d.place (baseDir.join (ofNames (names.map fromUtf8Lossy))) =
        d.place (home.join (ofNames names))

end Disk

/-- All regular files that may be requested and are there are found from the directory `baseDir`. -/
def SameHome (d : Disk) (found : List Found) (baseDir : FsPath) : Prop :=
  ∀ ndx e, requested found ndx = some e → e.info.isRegular = true →
    (d.place e.origin).isSome → d.LeadsAlike baseDir e.home e.names

/-- What a client that pushes the sources works on. -/
def SenderArgs.push (args : SenderArgs) (walk : WalkArgs) (groups : List ((ℕ × ℕ) × List ℕ))
    (hardLinks : Bool) (sources : List SourceArg) : SenderArgs :=
  { args with flist := listFound groups hardLinks (sources.flatMap (·.pushEntries walk))
              baseDir := SourceArg.pushBaseDir sources }

/-- What a server that sends the sources works on. -/
def SenderArgs.serve (args : SenderArgs) (walk : WalkArgs) (groups : List ((ℕ × ℕ) × List ℕ))
    (hardLinks : Bool) (sources : List SourceArg) : SenderArgs :=
  { args with flist := listFound groups hardLinks (sources.flatMap (·.serverEntries walk))
              baseDir := SourceArg.serverBaseDir sources }

section SameHome

variable {d : Disk} {found : List Found} {args : SenderArgs}
  {groups : List ((ℕ × ℕ) × List ℕ)} {hardLinks : Bool}

/-- What the sender opens for the request of an entry. -/
theorem opens_eq
    (hlist : args.flist = listFound groups hardLinks found) (ndx : ℤ) :
  args.opens ndx = (requested found ndx).bind fun e =>
    if e.info.isRegular then some (args.baseDir.join e.info.path) else none
  := by
  have hget := getByNdx_listFound groups hardLinks found ndx
  rw [← hlist] at hget
  unfold SenderArgs.opens
  cases hfi : args.flist.getByNdx ndx with
  | none =>
      rw [hfi, Option.map_none] at hget
      rw [Option.map_eq_none_iff.mp hget.symm]
      rfl
  | some fi =>
      rw [hfi, Option.map_some] at hget
      obtain ⟨e, he, hinfo⟩ := Option.map_eq_some_iff.mp hget.symm
      have hreg : e.info.unlinked.isRegular = fi.unlinked.isRegular := by rw [hinfo]
      have hpath : e.info.unlinked.path = fi.unlinked.path := by rw [hinfo]
      rw [FileInfo.isRegular_unlinked, FileInfo.isRegular_unlinked] at hreg
      rw [FileInfo.path_unlinked, FileInfo.path_unlinked] at hpath
      rw [he, Option.bind_some, hreg, hpath]

theorem map_lossy_eq_iff
    (names : List Name) :
  names.map fromUtf8Lossy = names ↔ ∀ name ∈ names, isUtf8 name = true
  := by
  nth_rewrite 2 [← List.map_id names]
  rw [List.map_inj_left]
  apply forall₂_congr
  intro name _
  apply fromUtf8Lossy_eq_self_iff

/-- An entry is looked up where its file is exactly when its names lead there from the directory in
which it is looked up. -/
theorem Found.Named.place_iff
    {e : Found} (h : e.Named) (baseDir : FsPath) {l : Location} (hl : d.place e.origin = some l) :
  d.place (baseDir.join e.info.path) = some l ↔ d.LeadsAlike baseDir e.home e.names
  := by
  have hhome : d.place (e.home.join (ofNames e.names)) = some l := h.origin hl
  obtain ⟨dir, links, hdir, hway⟩ := dirPlace_of_join h.names h.nonempty hhome
  have hlossy : ∀ name ∈ e.names.map fromUtf8Lossy, IsName name := by
    intro name hname
    obtain ⟨n, hn, rfl⟩ := List.mem_map.mp hname
    exact (h.names n hn).lossy
  have hne : e.names.map fromUtf8Lossy ≠ [] := mt List.map_eq_nil_iff.mp h.nonempty
  rw [h.path]
  constructor
  · intro hbase
    obtain ⟨dir', links', hdir', hway'⟩ := dirPlace_of_join hlossy hne hbase
    by_cases hlink : d.LinkOnWay baseDir (e.names.map fromUtf8Lossy) ∨ d.LinkOnWay e.home e.names
    · exact .inr ⟨hlink, hbase.trans hhome.symm⟩
    · obtain ⟨hno', hno⟩ := not_or.mp hlink
      have hno : ¬MeetsLink d.shape dir e.names := fun hmeets => hno ⟨dir, hdir, hmeets⟩
      have hplace := (resolveFrom_names h.names hno hway).1
      have hplace' := (resolveFrom_names hlossy (fun hmeets => hno' ⟨dir', hdir', hmeets⟩) hway').1
      obtain ⟨hsame, hnames⟩ := List.append_inj' (hplace'.symm.trans hplace) (List.length_map _)
      rw [hsame] at hdir'
      exact .inl ⟨⟨dir, hdir', hdir, hno⟩, (map_lossy_eq_iff _).mp hnames⟩
  · rintro (⟨⟨dir', hbase, hdir', hno⟩, hutf8⟩ | ⟨-, hsame⟩)
    · cases hdir'.symm.trans hdir
      rw [(map_lossy_eq_iff _).mpr hutf8]
      exact join_of_dirPlace h.names h.nonempty hbase (resolveFrom_names h.names hno hway).2
    · exact hsame.trans hhome

theorem opensSource_iff_sameHome
    (hlist : args.flist = listFound groups hardLinks found)
    (hnamed : ∀ e ∈ found, e.info.isRegular = true → e.Named) :
  OpensSource d found args ↔ SameHome d found args.baseDir
  := by
  have hmem : ∀ ndx e, requested found ndx = some e → e.info.isRegular = true → e.Named := by
    intro ndx e he
    exact hnamed e (List.mem_mergeSort.mp (List.mem_of_getElem? he))
  constructor
  · intro h ndx e he hreg hthere
    have hopens : args.opens ndx = some (args.baseDir.join e.info.path) := by
      rw [opens_eq hlist, he, Option.bind_some, if_pos hreg]
    obtain ⟨l, hl⟩ := Option.isSome_iff_exists.mp hthere
    obtain ⟨e', he', hplace⟩ := h ndx _ hopens
    cases he.symm.trans he'
    exact ((hmem ndx e he hreg).place_iff args.baseDir hl).mp (hplace l hl)
  · intro h ndx path hopens
    rw [opens_eq hlist] at hopens
    obtain ⟨e, he, hpath⟩ := Option.bind_eq_some_iff.mp hopens
    split at hpath
    · next hreg =>
      cases hpath
      refine ⟨e, he, fun l hl => ?_⟩
      have hthere : (d.place e.origin).isSome := by
        rw [hl]
        rfl
      exact ((hmem ndx e he hreg).place_iff args.baseDir hl).mpr (h ndx e he hreg hthere)
    · cases hpath

theorem exists_requested
    (hlen : found.length < 2147483648) {e : Found} (h : e ∈ found) :
  ∃ ndx, requested found ndx = some e
  := by
  have hmem : e ∈ found.mergeSort fun a b => fileLe a.info b.info := List.mem_mergeSort.mpr h
  obtain ⟨i, hi, hget⟩ := List.getElem_of_mem hmem
  refine ⟨i, ?_⟩
  have hi' : i < found.length := by rwa [List.length_mergeSort] at hi
  have hndx : wrapI32 i = i := wrapI32_of_isI32 ⟨by omega, by omega⟩
  rw [requested, hndx, asUsize_of_nonneg (by omega) (by omega), Int.toNat_natCast]
  exact List.getElem?_eq_some_iff.mpr ⟨hi, hget⟩

end SameHome

section Sources

variable (d : Disk) (args : SenderArgs) (walk : WalkArgs) (groups : List ((ℕ × ℕ) × List ℕ))
  (hardLinks : Bool) (sources : List SourceArg)

theorem opensSource_push_iff :
  OpensSource d (sources.flatMap (·.pushEntries walk)) (args.push walk groups hardLinks sources) ↔
    SameHome d (sources.flatMap (·.pushEntries walk)) (SourceArg.pushBaseDir sources)
  := by
  apply opensSource_iff_sameHome rfl
  intro e he
  obtain ⟨s, -, hs⟩ := List.mem_flatMap.mp he
  exact s.named_pushEntries walk e hs

theorem opensSource_serve_iff :
  OpensSource d (sources.flatMap (·.serverEntries walk))
      (args.serve walk groups hardLinks sources) ↔
    SameHome d (sources.flatMap (·.serverEntries walk)) (SourceArg.serverBaseDir sources)
  := by
  apply opensSource_iff_sameHome rfl
  intro e he
  obtain ⟨s, -, hs⟩ := List.mem_flatMap.mp he
  exact s.named_serverEntries walk e hs

/-- In both directions of a transfer the sender opens the files that the entries were made from
exactly when all their names lead there from the one directory. -/
theorem opens_source_iff :
  (OpensSource d (sources.flatMap (·.pushEntries walk)) (args.push walk groups hardLinks sources) ↔
      SameHome d (sources.flatMap (·.pushEntries walk)) (SourceArg.pushBaseDir sources)) ∧
    (OpensSource d (sources.flatMap (·.serverEntries walk))
        (args.serve walk groups hardLinks sources) ↔
      SameHome d (sources.flatMap (·.serverEntries walk)) (SourceArg.serverBaseDir sources))
  := ⟨opensSource_push_iff d args walk groups hardLinks sources,
      opensSource_serve_iff d args walk groups hardLinks sources⟩

end Sources

/-- A directory with one file in it, as a source. -/
def dirWithFile (arg : FsPath) (name : EntryName) : SourceArg where
  arg
  node := some (.dir {} (.cons name (.file {} [] true) .nil))
  target := some (.dir {} (.cons name (.file {} [] true) .nil))
  named h := by cases h

theorem mem_pushEntries_dirWithFile
    (arg : FsPath) (name : EntryName) :
  ∃ e ∈ (dirWithFile arg name).pushEntries {}, e.info.isRegular = true ∧ e.origin = arg.join name ∧
    e.home = arg ∧ e.names = [name.1]
  := by
  refine ⟨((WalkPlace.start arg).enter name).found (.file {} [] true)
    (FsTree.metadataOf {} 0o100000 0), ?_, ?_, rfl, rfl, rfl⟩
  · apply List.mem_append_right
    exact List.mem_cons_self
  · change decide (FileType.fromMode (FsTree.metadataOf {} 0o100000 0).mode = .regular) = true
    decide

/-- Two directories, each with a file in it. -/
def twoDirs : List SourceArg :=
  [dirWithFile [0x61] ⟨[0x78], by decide, by decide, by decide, by decide⟩,
    dirWithFile [0x62] ⟨[0x79], by decide, by decide, by decide, by decide⟩]

/-- A file system that has them in its working directory. -/
def twoDirsDisk : Disk :=
  let a := (Disk.blank.create [[0x61]] { kind := .dir }).create [[0x62]] { kind := .dir }
  (a.create [[0x61], [0x78]] { kind := .file [] }).create [[0x62], [0x79]] { kind := .file [] }

/-- The file in the second of two directories is looked up in the first one. -/
theorem not_opens_source_second :
  ¬ OpensSource twoDirsDisk (twoDirs.flatMap (·.pushEntries {}))
      (SenderArgs.push ⟨{}, [], 31, 0, false⟩ {} [] false twoDirs)
  := by
  rw [opensSource_push_iff]
  intro h
  obtain ⟨e, he, hreg, horigin, hhome, hnames⟩ := mem_pushEntries_dirWithFile [0x62]
    ⟨[0x79], by decide, by decide, by decide, by decide⟩
  have hmem : e ∈ twoDirs.flatMap (·.pushEntries {}) :=
    List.mem_flatMap.mpr ⟨_, List.mem_cons_of_mem _ List.mem_cons_self, he⟩
  obtain ⟨ndx, hndx⟩ := exists_requested (by decide) hmem
  have hthere : (twoDirsDisk.place e.origin).isSome := by
    rw [horigin]
    decide +kernel
  have halike := h ndx e hndx hreg hthere
  rw [hhome, hnames] at halike
  rcases halike with ⟨⟨dir, hbase, hdir, -⟩, -⟩ | ⟨-, hsame⟩
  · have ha : twoDirsDisk.dirPlace [0x61] = some [[0x61]] := by decide +kernel
    have hb : twoDirsDisk.dirPlace [0x62] = some [[0x62]] := by decide +kernel
    have hsame := Option.some.inj (ha.symm.trans hbase)
    rw [← hsame, hb] at hdir
    exact absurd hdir (by decide)
  · exact absurd hsame (by decide +kernel)
