import RsyncRs.Daemon.Invocation

/-!
# Transfers with a daemon

Behind the dialogue both sides skip the exchange of versions, since these were told, and go on as in
other connections. So a transfer with a daemon does at the destination what a copy of the sources
does.
-/

open Duplex

variable {X : Type} {Reply : X → Type} {H H' : Type}

/-! ### The client -/

/-- The client after the version is known, up to the switch to frames. -/
def clientHandshake (protocol : ℕ) (doCompression : Bool) : Session Reply Handshake := do
  let compat ← clientCompat protocol doCompression
  pure { protocol, compat, writerEnabled := 30 ≤ protocol, readerEnabled := 30 ≤ protocol }

/-- Connect to a daemon and go on as `run` says. -/
def runClientDaemon {α : Type} (opts : Options) (remotePath : Str) (isPush : Bool)
    (run : ℕ → Session FsReply α) : Session (BufferedReply FsReply) α :=
  let module := (modulePath remotePath).1
  if module = [] then
    throw (.other
      s!"rsync:// URL is missing a module name (got '/{String.ofList remotePath}')")
  else do
    let protocol ← DaemonClient.connect module (daemonArgv opts isPush remotePath)
    (run protocol).unbuffered

/-- A client that pulls, when the version is known. -/
def DestSide.pullAt (dig : Digests) (F : Flate) (side : DestSide) (protocol : ℕ) :
    Session FsReply (Deleted × Receiver) := do
  let hs ← clientHandshake protocol side.compress
  hs.goOn (side.pull dig F hs)

/-- A client that pushes, when the version is known. -/
def SourceSide.pushAt (dig : Digests) (F : Flate) (side : SourceSide) (protocol : ℕ) :
    Session FsReply Sender := do
  let hs ← clientHandshake protocol side.compress
  hs.goOn (side.push dig F hs)

/-! ### The server -/

/-- The server after the version is known, up to the switch to frames. -/
def serverHandshake (recursive : Bool) (protocol : ℕ) (doCompression : Bool) (now pid : ℕ) :
    Session Reply Handshake := do
  let compat ← serverCompat recursive protocol doCompression now pid
  pure { protocol, compat, writerEnabled := true, readerEnabled := 30 ≤ protocol }

/-- The server behind the dialogue, with the arguments that it has read. -/
def Daemon.runServer (dig : Digests) (F : Flate) (around : Surroundings) (args : List Arg) :
    Session FsReply (Sender ⊕ (Deleted × Receiver)) := do
  let (flags, paths) := ServerFlags.parseArgv around.scaled (args.map strOf)
  let hs ← serverHandshake false protocolVersion flags.compress around.now around.pid
  if isSender args then do
    let s ← hs.goOn ((sourceSide around flags paths).serve dig F hs)
    pure (.inl s)
  else do
    let s ← hs.goOn ((destSide around flags (args.map strOf)).serve dig F hs)
    pure (.inr s)

/-! ### What both ends agree on -/

section Handshake

variable {answer : H → (x : X) → Option (Reply x × H)} {Y : Type} {Reply' : Y → Type}
  {answer' : H' → (y : Y) → Option (Reply' y × H')}

/-- The server offers its flags and its names. -/
theorem comes_serverHandshake
    {protocol : ℕ} (hmin : 30 ≤ protocol) (h : H) (recursive doCompression : Bool) (now pid : ℕ) :
  Proc.Comes answer
    (serverHandshake recursive protocol doCompression now pid : Session Reply Handshake)
    ⟨h, [], [], []⟩ (awaitLists recursive protocol doCompression now pid)
    ⟨h, [], [], offerBytes recursive doCompression⟩
  := by
  have hlists : Proc.Writes answer (offerLists true doCompression : Session Reply Unit)
      (listsBytes doCompression) () := writes_writeLists doCompression
  apply Proc.Comes.bind
  unfold serverCompat setupCompat
  rw [if_pos hmin, if_neg (by omega)]
  simp only [hasFlag_compatFlagsOf]
  apply (((writes_writeVarint _) false ⟨h, [], [], []⟩).comes _).trans
  apply ((hlists false _).comes _).trans
  exact (returns_flushOk false _).comes _

/-- The client answers the names of the server. -/
theorem comes_clientHandshake
    {protocol : ℕ} (hmin : 30 ≤ protocol) (h : H) (recursive doCompression : Bool) :
  Proc.Comes answer (clientHandshake protocol doCompression : Session Reply Handshake)
    ⟨h, offerBytes recursive doCompression, [], []⟩
    (awaitSeed recursive protocol doCompression) ⟨h, [], [], listsBytes doCompression⟩
  := by
  have hlists : Proc.Returns answer false
      (serverLists true doCompression : Session Reply (Option (List UInt8)))
      ⟨h, listsBytes doCompression, [], []⟩ (compressions doCompression)
      ⟨h, [], [], listsBytes doCompression⟩ := by
    apply Proc.Returns.bind (reads_readLists doCompression false
      ⟨h, listsBytes doCompression, [], []⟩ [] (List.append_nil _).symm)
    apply Proc.Returns.bind (writes_writeLists doCompression false ⟨h, [], [], []⟩)
    apply (returns_flushOk false _).bind
    apply Proc.returns_pure
  have hsmall := compatFlagsOf_lt recursive
  have h32 : IsI32 (compatFlagsOf recursive : ℤ) := by
    unfold IsI32
    omega
  apply Proc.Comes.bind
  unfold clientCompat setupCompatClient
  rw [if_pos hmin, if_neg (by omega)]
  apply (Proc.Returns.comes (reads_readVarint h32 false
    ⟨h, offerBytes recursive doCompression, [], []⟩ (listsBytes doCompression) rfl) _).trans
  simp only [asU32_natCast (show compatFlagsOf recursive < 4294967296 by omega),
    hasFlag_compatFlagsOf]
  exact hlists.comes _

/-- Both ends come to the same when they know the version. -/
theorem reaches_handshake
    {α β : Type} {protocol : ℕ} (hmin : 30 ≤ protocol) (recursive doCompression : Bool)
    (now pid : ℕ) (f : Handshake → Session Reply α) (g : Handshake → Session Reply' β) (h : H)
    (h' : H') :
  Reaches answer answer'
    (talk (clientHandshake protocol doCompression >>= f) h
      (serverHandshake recursive protocol doCompression now pid >>= g) h')
    (talk (f (agreed true protocol protocol recursive doCompression now pid)) h
      (g (agreed true protocol protocol recursive doCompression now pid)) h')
  := by
  simp only [agreed, min_self, hmin, decide_true]
  apply (reaches_right _ ((comes_serverHandshake hmin h' recursive doCompression now pid).bind
    g)).trans
  apply (reaches_toLeft _ _).trans
  apply (reaches_left _ ((comes_clientHandshake hmin h recursive doCompression).bind f)).trans
  apply (reaches_toRight _ _).trans
  apply (reaches_right _ ((returns_awaitLists hmin h' recursive doCompression now pid).comes
    g)).trans
  apply (reaches_toLeft _ _).trans
  exact reaches_left _ ((returns_awaitSeed hmin h recursive doCompression now pid).comes f)

end Handshake

/-! ### Transfers -/

section Transfers

variable {F : Flate} {dig : Digests} {answer : H → (x : FsCall) → Option (FsReply x × H)}
  {answer' : H' → (x : FsCall) → Option (FsReply x × H')} {cfg : DaemonConfig} {m : DaemonModule}
  {given opts : Options} {remotePath : Str} {here there : Surroundings} {h k : H} {h' h₁' k' : H'}
  {source : ℕ → List UInt8} {deleted : Deleted} {stats : Stats} {flist d : FileList}

/-- What both ends of a connection to a daemon agree on. -/
def daemonHandshake (there : Surroundings) : Handshake :=
  agreed true protocolVersion protocolVersion false false there.now there.pid

theorem ready_daemonHandshake
    (there : Surroundings) :
  (daemonHandshake there).Ready
  := ready_agreed (.inr rfl) (.inr rfl) _ _ _

/-- The server of a pull behind the dialogue. -/
theorem Requests.runServer_pull
    (h : Requests cfg there given.expandArchive false remotePath m) :
  Daemon.runServer dig F there (argsRead given.expandArchive false remotePath) =
    serverHandshake false protocolVersion false there.now there.pid >>= fun hs =>
      (hs.goOn ((given.expandArchive.servedSide there (pathInModule remotePath)).serve dig F hs) >>=
        fun s => pure (.inl s))
  := by
  have harrive := h.arrive
  have hsender := h.sender_mem_iff.mpr (sender_mem_pull _ _)
  unfold Daemon.runServer
  generalize ServerFlags.parseArgv there.scaled
    ((argsRead given.expandArchive false remotePath).map strOf) = parsed at harrive ⊢
  obtain ⟨flags, paths⟩ := parsed
  have hside : Daemon.sourceSide there flags paths = _ := harrive.sourceSide
  have hplain : flags.compress = false := harrive.compress.trans h.plain
  dsimp only
  rw [hside, hplain]
  simp only [if_pos hsender]

/-- The server of a push behind the dialogue. -/
theorem Requests.runServer_push
    (h : Requests cfg there given.expandArchive true remotePath m)
    (hrules : "--sender".toList ∉ given.expandArchive.filter) :
  Daemon.runServer dig F there (argsRead given.expandArchive true remotePath) =
    serverHandshake false protocolVersion false there.now there.pid >>= fun hs =>
      (hs.goOn ((given.expandArchive.servedDest there (pathInModule remotePath)).serve dig F hs) >>=
        fun s => pure (.inr s))
  := by
  have harrive := h.arrive
  have hsender : ¬ Daemon.isSender (argsRead given.expandArchive true remotePath) = true :=
    fun hmem => sender_notMem_push h.isPath hrules (h.sender_mem_iff.mp hmem)
  have hlast : ((argsRead given.expandArchive true remotePath).map strOf).getLast? =
      some (pathInModule remotePath) := by
    rw [h.argsRead_eq, map_strOf_bytes, Options.serverArgv,
      List.getLast?_append_of_ne_nil _ (List.cons_ne_nil _ _)]
    rfl
  unfold Daemon.runServer
  generalize ServerFlags.parseArgv there.scaled
    ((argsRead given.expandArchive true remotePath).map strOf) = parsed at harrive ⊢
  obtain ⟨flags, paths⟩ := parsed
  have hside : Daemon.destSide there flags
      ((argsRead given.expandArchive true remotePath).map strOf) = _ := harrive.destSide hlast
  have hplain : flags.compress = false := harrive.compress.trans h.plain
  dsimp only
  rw [hside, hplain]
  simp only [if_neg hsender]

/-- A client and the daemon come to the end of the session of a client and a server that have
agreed, whatever the timing. -/
theorem Requests.mustCome
    {isPush : Bool} (hrequests : Requests cfg there opts isPush remotePath m)
    (henter : answer' h' (.setCurrentDir m.path.bytes) = some (.ok (), k'))
    (hwrites : m.readOnly → Daemon.isSender (argsRead opts isPush remotePath)) {α β γ : Type}
    {run : ℕ → Session FsReply α} {serve : List Arg → Session FsReply γ}
    {p : Handshake → Session FsReply α} {q : Handshake → Session FsReply β} {r : β → γ}
    (hrun : run protocolVersion = clientHandshake protocolVersion false >>= p)
    (hserve : serve (argsRead opts isPush remotePath) =
      serverHandshake false protocolVersion false there.now there.pid >>= fun hs =>
        q hs >>= fun b => pure (r b))
    {g : Party UInt8 FsReply H (Except Error α) × Party UInt8 FsReply H' (Except Error β)} {a : α}
    {b : β}
    (hg : Reaches answer answer'
      (talk (p (daemonHandshake there)) h (q (daemonHandshake there)) k') g)
    (hover : Over g (.ok a) (.ok b)) :
  ∃ e, Over e (.ok a) (.ok (some (r b))) ∧ e.1.2.host = g.1.2.host ∧ e.2.2.host = g.2.2.host ∧
    MustCome answer answer'
      (talk (runClientDaemon opts remotePath isPush run) h (Daemon.handleConnection cfg serve) h') e
  := by
  have hall : Reaches answer answer'
      (talk (run protocolVersion) h (serve (argsRead opts isPush remotePath)) k')
      ((.ret (.ok a), g.1.2), (.ret (.ok (r b)), g.2.2)) := by
    rw [hrun, hserve]
    apply (reaches_handshake (by decide) false false there.now there.pid _ _ h k').trans
    have hlast := hg.talk_bind hover pure fun b => (pure (r b) : Session FsReply γ)
    rwa [bind_pure] at hlast
  have hnamed : (modulePath remotePath).1 ≠ [] := hrequests.addressable.1
  obtain ⟨e, hover', hleft, hright, hcomes⟩ :=
    comesTo_dialogue hrequests.accepts henter hwrites hall
      ⟨rfl, rfl, hover.leftSide, hover.rightSide⟩
  refine ⟨e, hover', hleft, hright, ?_⟩
  unfold runClientDaemon
  dsimp only
  rw [if_neg hnamed]
  exact hcomes.mustCome

variable {src : SourceSide} {dst : DestSide} {J : H' → Prop} {J' : H → Prop}

/-- In a pull from a daemon the client and the daemon, whatever the timing, come to an end without
an error, and no byte is lost in a buffer. The client has the list of what the options ask for in
the module, and then the destination is as a copy leaves it that has the content of the files at
hand. -/
theorem daemon_pull
    (hrequests : Requests cfg there given.expandArchive false remotePath m)
    (hsrc : src = given.expandArchive.servedSide there (pathInModule remotePath)) {dest : Str}
    (hdst : dst = given.expandArchive.destSide here dest)
    (hfilter : ∀ rule ∈ dst.filter.rules, rule.Fits)
    (hflist : flist = src.serverList { rules := dst.filter.rules.map FilterRule.resent })
    (hlist : SendableList flist.files)
    (henter : answer' h' (.setCurrentDir m.path.bytes) = some (.ok (), k')) (hk' : J k')
    (hholds : HoldsSources answer' J (SourceArg.serverBaseDir src.sources) flist.files source)
    (hd : d = src.received (daemonHandshake there) flist)
    (hcopies : CopiesAfter answer dig (dst.prepare d) (dst.receiverArgs (daemonHandshake there) d)
      source h deleted stats k) :
  List.Forall₂ (AgreesFully (daemonHandshake there).protocol
      (checksumLenOf src.checksum (daemonHandshake there).protocol) src.preserve)
      flist.files d.files ∧
    ∃ e ss s, Over e (.ok (deleted, s)) (.ok (some (.inl ss))) ∧
      s.stats = Receiver.pulled stats ∧ e.1.2.host = k ∧ J e.2.2.host ∧
      MustCome answer answer'
        (talk (runClientDaemon given.expandArchive remotePath false (dst.pullAt dig F)) h
          (Daemon.handleConnection cfg (Daemon.runServer dig F there)) h') e
  := by
  have hready := ready_daemonHandshake there
  have hsides : SidesAgree src dst := hsrc ▸ hdst ▸ given.sidesAgree_pull here there _ dest
  have hlinks : src.hardLinks = false := hsrc ▸ hrequests.noLinks
  have hplain : dst.compress = false := hdst ▸ hrequests.plain
  obtain ⟨hagrees, -⟩ :=
    carries_sendList answer' answer hsides hready.protocol_ge hlinks hflist hlist
  obtain ⟨f, ss, s, hsession, hover, hstats, hj, hk⟩ := reaches_pull_session (F := F) hready hsides
    hlinks hfilter hflist hlist hholds hk' hd hcopies
  have hrun : dst.pullAt dig F protocolVersion =
      clientHandshake protocolVersion false >>= fun hs => hs.goOn (dst.pull dig F hs) := by
    rw [DestSide.pullAt, hplain]
  have hserve : Daemon.runServer dig F there _ = _ := hrequests.runServer_pull
  rw [← hsrc] at hserve
  have hsends := hrequests.sender_mem_iff.mpr (sender_mem_pull _ _)
  obtain ⟨e, hover', hleft, hright, hmust⟩ :=
    hrequests.mustCome henter (fun _ => hsends) hrun hserve hsession.swap
      ⟨hover.right, hover.left, hover.rightSide, hover.leftSide⟩
  exact ⟨hd ▸ hagrees, e, ss, s, hover', hstats, hleft.trans hk, by rw [hright]; exact hj, hmust⟩

/-- In a push to a daemon the client and the daemon, whatever the timing, come to an end without an
error, and no byte is lost in a buffer, when the client may write. The daemon has the list of the
client, and then the place in the module is as a copy leaves it that has the content of the files at
hand. -/
theorem daemon_push
    (hrequests : Requests cfg there given.expandArchive true remotePath m)
    (hrules : "--sender".toList ∉ given.expandArchive.filter) (hwrites : m.readOnly = false)
    {sources : List Str} (hsrc : src = given.expandArchive.sourceSide here sources)
    (hdst : dst = given.expandArchive.servedDest there (pathInModule remotePath))
    (hflist : flist = src.pushList) (hlist : SendableList flist.files) (hh : J' h)
    (hholds : HoldsSources answer J' (SourceArg.pushBaseDir src.sources) flist.files source)
    (henter : answer' h' (.setCurrentDir m.path.bytes) = some (.ok (), h₁'))
    (hd : d = src.received (daemonHandshake there) flist)
    (hcopies : CopiesAfter answer' dig (dst.removeExtraneous d)
      (dst.receiverArgs (daemonHandshake there) d) source h₁' deleted stats k') :
  List.Forall₂ (AgreesFully (daemonHandshake there).protocol
      (checksumLenOf src.checksum (daemonHandshake there).protocol) src.preserve)
      flist.files d.files ∧
    ∃ e ss s, Over e (.ok ss) (.ok (some (.inr (deleted, s)))) ∧ s.stats = stats ∧
      ss.stats.totalWritten = stats.totalWritten ∧ J' e.1.2.host ∧ e.2.2.host = k' ∧
      MustCome answer answer'
        (talk (runClientDaemon given.expandArchive remotePath true (src.pushAt dig F)) h
          (Daemon.handleConnection cfg (Daemon.runServer dig F there)) h') e
  := by
  have hready := ready_daemonHandshake there
  have hsides : SidesAgree src dst := hsrc ▸ hdst ▸ given.sidesAgree_push here there sources _
  have hlinks : src.hardLinks = false := hsrc ▸ hrequests.noLinks
  have hplain : src.compress = false := hsrc ▸ hrequests.plain
  have hdelete : src.delete = dst.delete := hsrc ▸ hdst ▸ rfl
  obtain ⟨hagrees, -⟩ :=
    carries_sendList answer answer' hsides hready.protocol_ge hlinks hflist hlist
  obtain ⟨f, ss, s, hsession, hover, hstats, hsent, hj, hk⟩ := reaches_push_session (F := F) hready
    hsides hdelete hlinks hflist hlist hholds hh hd hcopies
  have hrun : src.pushAt dig F protocolVersion =
      clientHandshake protocolVersion false >>= fun hs => hs.goOn (src.push dig F hs) := by
    rw [SourceSide.pushAt, hplain]
  have hserve : Daemon.runServer dig F there _ = _ := hrequests.runServer_push hrules
  rw [← hdst] at hserve
  obtain ⟨e, hover', hleft, hright, hmust⟩ :=
    hrequests.mustCome henter (fun hread => absurd (hread.symm.trans hwrites) (by decide)) hrun
      hserve hsession hover
  exact ⟨hd ▸ hagrees, e, ss, s, hover', hstats, hsent, by rw [hleft]; exact hj, hright.trans hk,
    hmust⟩

end Transfers

/-! A directory of a module is pulled to where there is another file, and pushed to such a place in
a module. -/

/-- The options of the client. -/
def mirror : Options where
  recursive := true
  delete := true
  exclude := ["o".toList]

/-- The module. -/
def moduleOfData : DaemonModule where
  name := "d".toList
  path := "/d".toList
  comment := []
  readOnly := false
  list := true

/-- The daemon that has the module. -/
def dataConfig : DaemonConfig where
  modules := [moduleOfData]

/-- The directory at a path. -/
def treeAt (path : Str) : List SourceArg :=
  [{ arg := path.bytes, node := some sourceTree, target := some sourceTree,
     named := fun h => absurd h (by decide) }]

/-- What there is around a side. -/
def treeAround : Surroundings where
  sourcesAt := fun paths => paths.flatMap treeAt
  stack := 1

theorem requests_mirror
    (isPush : Bool) :
  Requests dataConfig treeAround mirror.expandArchive isPush "d/".toList moduleOfData
  where
  oneLine := ⟨by decide, by decide⟩
  addressable := ⟨by decide, by decide⟩
  found := by decide
  areArgs := by
    intro a ha
    have hall : ∀ a ∈ (mirror.expandArchive.serverArgv (!isPush) (daemonOperand "d/".toList)).map
        Str.bytes, a ≠ [] ∧ 0 ∉ a := by
      cases isPush <;> decide +kernel
    exact ⟨(hall a ha).1, (hall a ha).2⟩
  rulesPass := by
    refine ⟨?_, ?_, ?_, ?_, ?_, ?_⟩ <;> decide
  isPath := by decide
  plain := rfl
  noLinks := rfl
  noList := rfl

/-- The file system of the client of a pull or the daemon of a push. -/
def olderData : Disk :=
  ((Disk.blank.create [[100]] { kind := .dir }).create [[100], [103]] { kind := .file [9] })

/-- The file system with the directory. -/
def newerData : Disk :=
  ((Disk.blank.create [[100]] { kind := .dir }).create [[100], [109]] { kind := .file [7] }).create
    [[100], [111]] { kind := .file [8] }

/-- What is known of the three files. -/
def dataKinds (d : Disk) : List (Option FileKind) :=
  [[[100], [109]], [[100], [103]], [[100], [111]]].map fun l => (d.inode? l).map Inode.kind

/-- The file system in the directory of the module, after some calls. -/
def inData (d : Disk) (n : ℕ) : Disk :=
  { d with cwd := [[100]], calls := n }

theorem holdsSources_data
    {baseDir : FsPath} {disk : ℕ → Disk}
    (h : ∀ n, Disk.answer (disk n) (.readFile (baseDir.join [109])) =
      some (.ok [7], disk (n + 1))) :
  HoldsSources Disk.answer (fun d => ∃ n, d = disk n) baseDir treeFiles fun _ => [7]
  := by
  intro i fi hfi hregular
  rcases i with _ | _ | i
  · cases hfi
    exact absurd hregular (by decide +kernel)
  · cases hfi
    refine ⟨by decide +kernel, ?_⟩
    rintro _ ⟨n, rfl⟩
    exact ⟨_, ⟨n + 1, rfl⟩, h n⟩
  · cases hfi

theorem enters_data
    {d : Disk} (h : d = newerData ∨ d = olderData) :
  Disk.answer d (.setCurrentDir moduleOfData.path.bytes) = some (.ok (), inData d 1)
  := by
  rcases h with rfl | rfl
  · rfl
  · rfl

/-- What the daemon sends. -/
def dataSource : SourceSide :=
  mirror.expandArchive.servedSide treeAround (pathInModule "d/".toList)

/-- Where the client pulls to. -/
def pullDest : DestSide :=
  mirror.expandArchive.destSide treeAround "/d".toList

/-- What the client pushes. -/
def pushSource : SourceSide :=
  mirror.expandArchive.sourceSide treeAround ["/d".toList]

/-- Where the daemon receives. -/
def dataDest : DestSide :=
  mirror.expandArchive.servedDest treeAround (pathInModule "d/".toList)

/-- The list as it is received. -/
def dataReceived (src : SourceSide) : FileList :=
  src.received (daemonHandshake treeAround) { files := treeFiles, sorted := [0, 1] }

theorem copiesAfter_pull_data :
  ∃ k, CopiesAfter Disk.answer digestsOfZeros (pullDest.prepare (dataReceived dataSource))
      (pullDest.receiverArgs (daemonHandshake treeAround) (dataReceived dataSource)) (fun _ => [7])
      olderData { files := 1 }
      { numFiles := 1, xferredFiles := 1, createdFiles := 1, totalWritten := 1 } k ∧
    dataKinds k = [some (.file [7]), none, none]
  := exists_copiesAfter (n := 50) (pullDest.onlyHosts_prepare _) dataKinds (by decide +kernel)
    (by decide +kernel)

theorem copiesAfter_push_data :
  ∃ k, CopiesAfter Disk.answer digestsOfZeros (dataDest.removeExtraneous (dataReceived pushSource))
      (dataDest.receiverArgs (daemonHandshake treeAround) (dataReceived pushSource)) (fun _ => [7])
      (inData olderData 1) { files := 1 }
      { numFiles := 1, xferredFiles := 1, createdFiles := 1, totalWritten := 1 } k ∧
    dataKinds k = [some (.file [7]), none, none]
  := exists_copiesAfter (n := 50) (dataDest.onlyHosts_removeExtraneous _) dataKinds
    (by decide +kernel) (by decide +kernel)

theorem listOf_data
    {src : SourceSide} (hlinks : src.hardLinks = false) {found : List Found}
    (h : found.map Found.info = treeFiles) :
  src.listOf found = { files := treeFiles, sorted := [0, 1] }
  := by
  rw [src.listOf_eq hlinks, ← listOf_tree h, treeSource.listOf_eq rfl]

/-- The file is at the destination after a pull, and the one that was there is not. -/
theorem daemon_pull_data :
  ∃ e ss s, Over e (.ok ({ files := 1 }, s)) (.ok (some (.inl ss))) ∧
    dataKinds e.1.2.host = [some (.file [7]), none, none] ∧
    MustCome Disk.answer Disk.answer
      (talk (runClientDaemon mirror.expandArchive "d/".toList false
          (pullDest.pullAt digestsOfZeros StoredFlate.codec)) olderData
        (Daemon.handleConnection dataConfig
          (Daemon.runServer digestsOfZeros StoredFlate.codec treeAround)) newerData) e
  := by
  obtain ⟨k, hcopies, hkinds⟩ := copiesAfter_pull_data
  have hrules : pullDest.filter = leaveOut := by decide +kernel
  have hflist : dataSource.serverList { rules := pullDest.filter.rules.map FilterRule.resent } =
      { files := treeFiles, sorted := [0, 1] } := listOf_data rfl (by decide +kernel)
  have hsource : dataSource =
      mirror.expandArchive.servedSide treeAround (pathInModule "d/".toList) := rfl
  have hdest : pullDest = mirror.expandArchive.destSide treeAround "/d".toList := rfl
  have hholds : HoldsSources Disk.answer (fun d => ∃ n, d = inData newerData n) [dot] treeFiles
      fun _ => [7] := holdsSources_data fun _ => rfl
  obtain ⟨-, e, ss, s, hover, -, hk, -, hmust⟩ :=
    daemon_pull (F := StoredFlate.codec) (requests_mirror false) hsource hdest
      (hrules ▸ fits_leaveOut) hflist.symm sendableList_tree (enters_data (.inl rfl)) ⟨1, rfl⟩
      hholds rfl hcopies
  exact ⟨e, ss, s, hover, hk ▸ hkinds, hmust⟩

/-- The file is in the module after a push, and the one that was there is not. -/
theorem daemon_push_data :
  ∃ e ss s, Over e (.ok ss) (.ok (some (.inr ({ files := 1 }, s)))) ∧
    dataKinds e.2.2.host = [some (.file [7]), none, none] ∧
    MustCome Disk.answer Disk.answer
      (talk (runClientDaemon mirror.expandArchive "d/".toList true
          (pushSource.pushAt digestsOfZeros StoredFlate.codec)) newerData
        (Daemon.handleConnection dataConfig
          (Daemon.runServer digestsOfZeros StoredFlate.codec treeAround)) olderData) e
  := by
  obtain ⟨k, hcopies, hkinds⟩ := copiesAfter_push_data
  have hflist : pushSource.pushList = { files := treeFiles, sorted := [0, 1] } :=
    listOf_data rfl (by decide +kernel)
  have hsource : pushSource = mirror.expandArchive.sourceSide treeAround ["/d".toList] := rfl
  have hdest : dataDest =
      mirror.expandArchive.servedDest treeAround (pathInModule "d/".toList) := rfl
  have hholds : HoldsSources Disk.answer (fun d => ∃ n, d = { newerData with calls := n })
      (Str.bytes "/d".toList) treeFiles fun _ => [7] := holdsSources_data fun _ => rfl
  obtain ⟨-, e, ss, s, hover, -, -, -, hk, hmust⟩ :=
    daemon_push (F := StoredFlate.codec) (requests_mirror true) (by decide) rfl hsource hdest
      hflist.symm sendableList_tree ⟨0, rfl⟩ hholds (enters_data (.inr rfl)) rfl hcopies
  exact ⟨e, ss, s, hover, hk ▸ hkinds, hmust⟩
