import RsyncRs.Filter.Resent
import RsyncRs.Flist.Sorted
import RsyncRs.Flist.Walk
import RsyncRs.Io.Framed
import RsyncRs.Pipeline.Deletion
import RsyncRs.Pipeline.PullPush
import RsyncRs.Protocol.Handshake

/-!
# Whole connections

A connection starts with the handshake, and goes on in frames. In a pull the client sends its filter
rules and the server the list of what is left of its sources; in a push the client sends the list of
its sources. The list is received as it was sent, and so the session that follows does at the
destination what a copy of the sources does.
-/

open Duplex

variable {H H' : Type}

/-- Number of bytes of the checksums in a file list. -/
def checksumLenOf (useChecksum : Bool) (protocol : ℕ) : ℕ :=
  if useChecksum then (ChecksumType.forProtocol protocol).digestLen else 0

/-- Tokens are deflated when both ends have agreed on it. -/
def Handshake.useZlib (hs : Handshake) : Bool :=
  hs.compat.compressionChoice = some "zlib".toList

/-- What follows the handshake. -/
def Handshake.goOn {α : Type} (hs : Handshake) (p : Session FsReply α) : Session FsReply α :=
  multiplexed hs.writerEnabled hs.readerEnabled p

/-- What the sender of a list works on. -/
def Handshake.senderArgs (hs : Handshake) (flist : FileList) (baseDir : FsPath) : SenderArgs where
  flist
  baseDir
  protocol := hs.protocol
  checksumSeed := hs.compat.checksumSeed
  useZlib := hs.useZlib

/-- Drop the filter rules of a client that pushes. -/
def recvFilterList : Session FsReply Unit :=
  Proc.loop (fun _ => do
    let len ← readInt
    if len = 0 then
      pure (.inr ())
    else
      reserve 1 (asUsize len)
      let _ ← readBytes (asUsize len)
      pure (.inl ())) ()

/-! ### The side of the sources -/

/-- What a side works on that sends its files. -/
structure SourceSide where
  localVersion : ℕ := protocolVersion
  /-- The list is announced as one that goes into directories. -/
  recursive : Bool := false
  compress : Bool := false
  checksum : Bool := false
  preserve : Preserve := {}
  hardLinks : Bool := false
  /-- The receiver removes what is not in the list. -/
  delete : Bool := false
  walk : WalkArgs := {}
  sources : List SourceArg
  /-- The groups of linked files of a list, in the order of the map that has them. -/
  groups : FileList → List ((ℕ × ℕ) × List ℕ) := linkGroups
  now : ℕ := 0
  pid : ℕ := 0

namespace SourceSide

/-- The list of some entries. -/
def listOf (side : SourceSide) (found : List Found) : FileList :=
  listFound (side.groups (flistSort { files := found.map Found.info })) side.hardLinks found

/-- The list of a server, when the client has sent `filter`. -/
def serverList (side : SourceSide) (filter : FilterList) : FileList :=
  side.listOf (side.sources.flatMap fun s => s.serverEntries { side.walk with filter })

/-- The list of a client that pushes. -/
def pushList (side : SourceSide) : FileList :=
  side.listOf (side.sources.flatMap fun s => s.pushEntries side.walk)

/-- Send a list. -/
def sendList (side : SourceSide) (hs : Handshake) (flist : FileList) : Session FsReply Unit := do
  sendFileListEx flist hs.protocol (checksumLenOf side.checksum hs.protocol) 0 side.preserve
    hs.compat.compatFlags
  flushOk

/-- The server of a pull after the handshake. -/
def serve (dig : Digests) (F : Flate) (side : SourceSide) (hs : Handshake) :
    Session FsReply Sender := do
  let filter ← FilterList.recvAndParse
  let flist := side.serverList filter
  side.sendList hs flist
  Sender.serve dig F (hs.senderArgs flist (SourceArg.serverBaseDir side.sources)) {}

/-- The server of a pull. -/
def runServer (dig : Digests) (F : Flate) (side : SourceSide) : Session FsReply Sender := do
  let hs ← runServerIo side.localVersion side.recursive side.compress side.now side.pid
  hs.goOn (side.serve dig F hs)

/-- Send a filter list without rules, when the server removes files. -/
def sendNoFilter (side : SourceSide) : Session FsReply Unit :=
  if side.delete then do
    writeInt 0
    flushOk
  else
    pure ()

/-- A client that pushes, after the handshake. -/
def push (dig : Digests) (F : Flate) (side : SourceSide) (hs : Handshake) :
    Session FsReply Sender := do
  side.sendNoFilter
  side.sendList hs side.pushList
  Sender.push dig F (hs.senderArgs side.pushList (SourceArg.pushBaseDir side.sources)) {}

/-- A client that pushes. -/
def runClient (dig : Digests) (F : Flate) (side : SourceSide) : Session FsReply Sender := do
  let hs ← runClientProtocol side.localVersion side.compress
  hs.goOn (side.push dig F hs)

end SourceSide

/-! ### The side of the destination -/

/-- What a side works on that receives files. -/
structure DestSide where
  localVersion : ℕ := protocolVersion
  recursive : Bool := false
  compress : Bool := false
  preserve : Preserve := {}
  filter : FilterList := {}
  /-- Remove what is not in the list. -/
  delete : Bool := false
  dryRun : Bool := false
  /-- The room on the stack. -/
  stack : ℕ := 0
  /-- The options of the receiver; the rest comes with the connection. -/
  options : ReceiverArgs
  now : ℕ := 0
  pid : ℕ := 0

namespace DestSide

/-- What the receiver works on. -/
def receiverArgs (side : DestSide) (hs : Handshake) (flist : FileList) : ReceiverArgs :=
  { side.options with
    flist, protocol := hs.protocol, checksumSeed := hs.compat.checksumSeed, useZlib := hs.useZlib,
    csumType := strongToCsumType (ChecksumType.forProtocol hs.protocol) }

/-- Receive a list. -/
def recvList (side : DestSide) (hs : Handshake) : Session FsReply FileList :=
  recvFileListEx hs.protocol (checksumLenOf side.options.useChecksum hs.protocol)
    side.preserve.uid side.preserve.gid hs.compat.compatFlags

/-- Remove what is at the destination and not in the list, when this is asked for. -/
def removeExtraneous (side : DestSide) (flist : FileList) : Session FsReply Deleted :=
  if side.delete then do
    match ← Fs.metadata side.options.destDir with
    | .ok m =>
      if m.isDir then
        Receiver.deleteExtraneousFromFlist flist side.options.destDir side.dryRun side.stack
      else
        pure {}
    | .error _ => pure {}
  else
    pure {}

/-- Make the destination ready for a pull. -/
def prepare (side : DestSide) (flist : FileList) : Session FsReply Deleted := do
  Fs.orIgnore (Fs.createDirAll side.options.destDir)
  side.removeExtraneous flist

/-- A client that pulls, after the handshake. -/
def pull (dig : Digests) (F : Flate) (side : DestSide) (hs : Handshake) :
    Session FsReply (Deleted × Receiver) := do
  side.filter.send
  let flist ← side.recvList hs
  let deleted ← side.prepare flist
  let s ← Receiver.pull dig F (side.receiverArgs hs flist) {}
  pure (deleted, s)

/-- A client that pulls. -/
def runClient (dig : Digests) (F : Flate) (side : DestSide) :
    Session FsReply (Deleted × Receiver) := do
  let hs ← runClientProtocol side.localVersion side.compress
  hs.goOn (side.pull dig F hs)

/-- Drop the filter rules of the client, which sends some when files are removed. -/
def dropFilter (side : DestSide) : Session FsReply Unit :=
  if side.delete then recvFilterList else pure ()

/-- The server of a push after the handshake. -/
def serve (dig : Digests) (F : Flate) (side : DestSide) (hs : Handshake) :
    Session FsReply (Deleted × Receiver) := do
  side.dropFilter
  let flist ← side.recvList hs
  let deleted ← side.removeExtraneous flist
  let s ← Receiver.run dig F (side.receiverArgs hs flist) {}
  pure (deleted, s)

/-- The server of a push. -/
def runServer (dig : Digests) (F : Flate) (side : DestSide) :
    Session FsReply (Deleted × Receiver) := do
  let hs ← runServerIo side.localVersion side.recursive side.compress side.now side.pid
  hs.goOn (side.serve dig F hs)

end DestSide

/-! ### The list -/

section List

variable {answer : H → (x : FsCall) → Option (FsReply x × H)}
  {answer' : H' → (x : FsCall) → Option (FsReply x × H')} {closed : Bool} {src : SourceSide}
  {dst : DestSide} {hs : Handshake} {h : H} {h' : H'} {flist : FileList}

/-- The entries of a list can be sent, and there are not too many of them. -/
structure SendableList (files : List FileInfo) : Prop where
  entries : ∀ fi ∈ files, Sendable fi
  paths : ∀ fi ∈ files, fi.path.length < 2147483648
  targets : ∀ fi ∈ files, (targetOf fi).length < 2147483648
  count : files.length < 2147483648

/-- Without hard links a list is sorted and no more. -/
theorem SourceSide.listOf_eq
    (hlinks : src.hardLinks = false) (found : List Found) :
  src.listOf found = flistSort { files := found.map Found.info }
  := by
  rw [listOf, listFound, hlinks]
  rfl

/-- Both sides have agreed on what is in a list. -/
structure SidesAgree (src : SourceSide) (dst : DestSide) : Prop where
  uid : src.preserve.uid = dst.preserve.uid
  gid : src.preserve.gid = dst.preserve.gid
  checksum : src.checksum = dst.options.useChecksum

theorem checksumLenOf_le
    (useChecksum : Bool) (protocol : ℕ) :
  checksumLenOf useChecksum protocol ≤ 16
  := by
  unfold checksumLenOf ChecksumType.forProtocol
  split_ifs <;> decide

/-- What the other side makes of a list. -/
def SourceSide.received (side : SourceSide) (hs : Handshake) (flist : FileList) : FileList :=
  let files := receivedFiles hs.protocol (checksumLenOf side.checksum hs.protocol) side.preserve
    hs.compat.compatFlags flist.files
  { files, sorted := List.range files.length }

/-- A list is received as it was sent, and in the same order. -/
theorem carries_sendList
    (answer : H → (x : FsCall) → Option (FsReply x × H))
    (answer' : H' → (x : FsCall) → Option (FsReply x × H')) (hsides : SidesAgree src dst)
    (hp : 30 ≤ hs.protocol) (hlinks : src.hardLinks = false) {found : List Found}
    (hflist : flist = src.listOf found) (hlist : SendableList flist.files) :
  List.Forall₂ (AgreesFully hs.protocol (checksumLenOf src.checksum hs.protocol) src.preserve)
      flist.files (src.received hs flist).files ∧
    ∃ bs : List UInt8,
      (∀ closed (w : Endpoint H UInt8),
        Proc.Returns answer closed (src.sendList hs flist) w ()
          { w with buffer := [], sent := w.sent ++ (w.buffer ++ bs) }) ∧
      Proc.Reads answer' (dst.recvList hs) bs (src.received hs flist)
  := by
  rw [src.listOf_eq hlinks] at hflist
  have horder : sendOrder flist = .ok flist.files := hflist ▸ sendOrder_flistSort _
  have hsorted : flist.files.Pairwise (fileLe · ·) := hflist ▸ pairwise_flistSort _
  have hio : IsI32 0 := by decide
  have hpaths : ∀ pre fi post, flist.files = pre ++ fi :: post →
      fi.path.length - sameLen fi.path (prevName pre.getLast?) < 2147483648 := by
    intro pre fi post hfiles
    have hpath := hlist.paths fi (by rw [hfiles]; simp)
    omega
  have hlen := checksumLenOf_le src.checksum hs.protocol
  have hlen' : checksumLenOf src.checksum hs.protocol < 9223372036854775808 := by omega
  let nobody (_ : Unit) (x : FsCall) : Option (FsReply x × Unit) := none
  obtain ⟨hreceived, hagrees, hfiles⟩ :
      Received nobody hs.protocol (checksumLenOf src.checksum hs.protocol) src.preserve
        hs.compat.compatFlags flist.files _ ∧ _ ∧ _ :=
    received_inOrder nobody hs.compat.compatFlags hp hlist.entries hlen' hpaths hlist.targets
      hsorted
  have hcarries : Proc.Carries nobody
      (sendFileListEx flist hs.protocol (checksumLenOf src.checksum hs.protocol) 0 src.preserve
        hs.compat.compatFlags : Session FsReply Unit) ()
      (recvFileListEx hs.protocol (checksumLenOf src.checksum hs.protocol) src.preserve.uid
        src.preserve.gid hs.compat.compatFlags) _ :=
    carries_list horder hreceived hio (.inr (.inl (by omega)))
  obtain ⟨bs, hwrites, hreads⟩ := hcarries.anywhere answer answer'
  refine ⟨hagrees, bs, fun closed w => (hwrites closed w).bind (returns_flushOk closed _), ?_⟩
  have hsame : sortReceived (src.received hs flist).files = src.received hs flist :=
    (FileList.mk.injEq ..).mpr ⟨hfiles, rfl, rfl⟩
  unfold DestSide.recvList
  rw [← hsides.uid, ← hsides.gid, ← hsides.checksum, ← hsame]
  exact hreads

/-- While `J` is true of its host, the side of the sources finds the content of every regular file
of its list. -/
def HoldsSources (answer : H → (x : FsCall) → Option (FsReply x × H)) (J : H → Prop)
    (baseDir : FsPath) (files : List FileInfo) (source : ℕ → List UInt8) : Prop :=
  ∀ i fi, files[i]? = some fi → fi.isRegular = true → (source i).length < 4294967296 ∧
    ∀ h, J h → ∃ k, J k ∧ answer h (.readFile (baseDir.join fi.path)) = some (.ok (source i), k)

/-- An index denotes the same file on both sides. -/
theorem servesAll_of_list
    {J : H → Prop} {baseDir : FsPath} {source : ℕ → List UInt8} {d : FileList} {checksumLen : ℕ}
    {preserve : Preserve} (hstart : flist.ndxStart = 0) (hcount : flist.files.length < 2147483648)
    (hagrees : List.Forall₂ (AgreesFully hs.protocol checksumLen preserve) flist.files d.files)
    (hd : d.ndxStart = 0) (hholds : HoldsSources answer J baseDir flist.files source) :
  Receiver.ServesAll answer (hs.senderArgs flist baseDir) J (dst.receiverArgs hs d) source
  := by
  rintro ⟨x, i⟩ he hmay
  have hx : d.files[i]? = some x := List.mem_zipIdx_iff_getElem?.mp he
  obtain ⟨hi, hget⟩ := List.getElem?_eq_some_iff.mp hx
  have hi' : i < flist.files.length := hagrees.length_eq ▸ hi
  have hentry := hagrees.get hi' hi
  have hmode : x.mode = flist.files[i].mode := by
    rw [← hget]
    exact hentry.mode
  have hregular : flist.files[i].isRegular = true := by
    have h : x.isRegular = true := by
      simp only [Receiver.mayRequest, Bool.and_eq_true] at hmay
      exact hmay.1.1
    rwa [FileInfo.isRegular, FileInfo.fileType, hmode] at h
  have hi32 : IsI32 (i : ℤ) := ⟨by omega, by omega⟩
  have hndx : Receiver.ndxOf (dst.receiverArgs hs d) i = i := by
    simp only [Receiver.ndxOf, DestSide.receiverArgs, hd, zero_add, wrapI32_of_isI32 hi32]
  have hfile : flist.files[i]? = some flist.files[i] := List.getElem?_eq_getElem hi'
  obtain ⟨hlen, hread⟩ := hholds i _ hfile hregular
  refine ⟨by rw [hndx]; omega, flist.files[i], ?_, hregular, hlen, hread⟩
  rw [hndx, FileList.getByNdx]
  simp only [Handshake.senderArgs, hstart, sub_zero, wrapI32_of_isI32 hi32]
  rw [asUsize_of_nonneg (by omega) (by omega), Int.toNat_natCast, hfile]

end List

/-! ### The destination -/

namespace DestSide

theorem onlyHosts_deleteWalk
    (root : FsPath) (kept : List FsPath) (dryRun : Bool) (n : ℕ) (cur : FsPath) (acc : Deleted) :
  Proc.OnlyHosts (Receiver.deleteWalk root kept dryRun n cur acc)
  := by
  induction n generalizing cur acc with
  | zero => exact Proc.onlyHosts_throw _
  | succ n ih =>
      have hentry : ∀ acc name, Proc.OnlyHosts (Receiver.deleteEntry root kept dryRun
          (Receiver.deleteWalk root kept dryRun n) cur acc name) := by
        intro acc name
        unfold Receiver.deleteEntry
        split
        · exact Proc.onlyHosts_pure _
        · apply (Proc.onlyHosts_host _).bind
          intro info
          split
          · split
            · exact ih _ _
            · exact Proc.onlyHosts_pure _
          · unfold Receiver.removeEntry
            split
            · exact (Proc.onlyHosts_pure _).bind fun _ => Proc.onlyHosts_pure _
            · split
              · exact (Receiver.onlyHosts_orIgnore (Proc.onlyHosts_host _)).bind fun _ =>
                  Proc.onlyHosts_pure _
              · exact (Receiver.onlyHosts_orIgnore (Proc.onlyHosts_host _)).bind fun _ =>
                  Proc.onlyHosts_pure _
      apply (Proc.onlyHosts_host _).bind
      intro names
      cases names with
      | error msg => exact Proc.onlyHosts_pure _
      | ok names => exact Proc.onlyHosts_forEach hentry acc names

theorem onlyHosts_removeExtraneous
    (side : DestSide) (flist : FileList) :
  Proc.OnlyHosts (side.removeExtraneous flist)
  := by
  unfold removeExtraneous
  split
  · apply (Proc.onlyHosts_host _).bind
    intro r
    cases r with
    | error msg => exact Proc.onlyHosts_pure _
    | ok m =>
        dsimp only
        split
        · exact onlyHosts_deleteWalk _ _ _ _ _ _
        · exact Proc.onlyHosts_pure _
  · exact Proc.onlyHosts_pure _

theorem onlyHosts_prepare
    (side : DestSide) (flist : FileList) :
  Proc.OnlyHosts (side.prepare flist)
  := (Receiver.onlyHosts_orIgnore (Proc.onlyHosts_host _)).bind fun _ =>
    side.onlyHosts_removeExtraneous flist

end DestSide

/-! ### Connections -/

section Connections

variable {F : Flate} {dig : Digests} {answer : H → (x : FsCall) → Option (FsReply x × H)}
  {answer' : H' → (x : FsCall) → Option (FsReply x × H')} {src : SourceSide} {dst : DestSide}
  {h : H} {h' k' : H'} {J : H → Prop} {source : ℕ → List UInt8} {deleted : Deleted}
  {stats : Stats} {flist d : FileList}

/-- Both sides are of this version or of the one before it, and do not compress. -/
structure Speaks (src : SourceSide) (dst : DestSide) : Prop extends SidesAgree src dst where
  sourceVersion : src.localVersion = 30 ∨ src.localVersion = 31
  destVersion : dst.localVersion = 30 ∨ dst.localVersion = 31
  sourcePlain : src.compress = false
  destPlain : dst.compress = false

/-- What the two sides of a pull agree on. -/
def pullHandshake (src : SourceSide) (dst : DestSide) : Handshake :=
  agreed true dst.localVersion src.localVersion src.recursive false src.now src.pid

/-- What the two sides of a push agree on. -/
def pushHandshake (src : SourceSide) (dst : DestSide) : Handshake :=
  agreed true src.localVersion dst.localVersion dst.recursive false dst.now dst.pid

/-- What an end has when both have agreed on one of these versions and do not compress. -/
structure Handshake.Ready (hs : Handshake) : Prop where
  protocol : hs.protocol = 30 ∨ hs.protocol = 31
  plain : hs.useZlib = false
  writer : hs.writerEnabled = true
  reader : hs.readerEnabled = true

theorem Handshake.Ready.protocol_ge
    {hs : Handshake} (h : hs.Ready) :
  30 ≤ hs.protocol
  := by
  have := h.protocol
  omega

theorem ready_agreed
    {client server : ℕ} (hclient : client = 30 ∨ client = 31) (hserver : server = 30 ∨ server = 31)
    (recursive : Bool) (now pid : ℕ) :
  (agreed true client server recursive false now pid).Ready
  where
  protocol := by
    simp only [agreed]
    omega
  plain := by
    simp only [agreed, agreedCompat, chooseCompression, Handshake.useZlib]
    split_ifs <;> rfl
  writer := rfl
  reader := by
    simp only [agreed, decide_eq_true_eq]
    omega

theorem ready_pullHandshake
    (hspeaks : Speaks src dst) :
  (pullHandshake src dst).Ready
  := ready_agreed hspeaks.destVersion hspeaks.sourceVersion _ _ _

theorem ready_pushHandshake
    (hspeaks : Speaks src dst) :
  (pushHandshake src dst).Ready
  := ready_agreed hspeaks.sourceVersion hspeaks.destVersion _ _ _

/-- What two sessions come to, they come to when they follow the handshake. -/
theorem Handshake.Ready.exists_goOn
    {hs : Handshake} (hready : hs.Ready) {α β : Type} {p : Session FsReply α}
    {q : Session FsReply β} {f : Party UInt8 FsReply H (Except Error α) ×
      Party UInt8 FsReply H' (Except Error β)} {a : Except Error α} {b : Except Error β}
    (hf : Reaches answer answer' (talk p h q h') f) (hover : Over f a b) :
  ∃ g, Reaches answer answer' (talk (hs.goOn p) h (hs.goOn q) h') g ∧ Over g a b ∧
    g.1.2.host = f.1.2.host ∧ g.2.2.host = f.2.2.host
  := by
  unfold Handshake.goOn
  rw [hready.writer, hready.reader]
  exact exists_multiplexed hf hover

/-- The session that follows is one of two ends that have agreed. -/
theorem agrees_of_handshake
    {hs : Handshake} (hplain : hs.useZlib = false) (flist d : FileList) (baseDir : FsPath) :
  Receiver.Agrees (dst.receiverArgs hs d) (hs.senderArgs flist baseDir)
  where
  protocol := rfl
  seed := rfl
  senderPlain := hplain
  receiverPlain := hplain
  sum := digestLen_forProtocol hs.protocol

/-- A client and a server come to what they agree on. -/
theorem reaches_connected
    {α β : Type} {client server : ℕ} (hclient : client = 30 ∨ client = 31)
    (hserver : server = 30 ∨ server = 31) (recursive : Bool) (now pid : ℕ)
    (f : Handshake → Session FsReply α) (g : Handshake → Session FsReply β) :
  Reaches answer answer'
    (talk (runClientProtocol client false >>= f) h
      (runServerIo server recursive false now pid >>= g) h')
    (talk (f (agreed true client server recursive false now pid)) h
      (g (agreed true client server recursive false now pid)) h')
  := by
  have hstart : Reaches answer answer' (talk (runClientProtocol client false : Session FsReply _) h
      (runServerIo server recursive false now pid : Session FsReply _) h') _ :=
    reaches_agreed_alone (by omega) (by omega) recursive false now pid h h'
  have hmin : 30 ≤ min client server := by omega
  simp only [hmin, decide_true] at hstart
  exact hstart.talk_bind ⟨rfl, rfl, ⟨rfl, rfl⟩, ⟨rfl, rfl⟩⟩ f g

/-- Prepare the destination, and copy the files with their content at hand. -/
def copyAfter (prepared : Session FsReply Deleted) (args : ReceiverArgs) (source : ℕ → List UInt8) :
    Session FsReply (Deleted × Stats) := do
  let deleted ← prepared
  let stats ← Receiver.copyAll args source {}
  pure (deleted, stats)

theorem onlyHosts_copyAfter
    {prepared : Session FsReply Deleted} (h : Proc.OnlyHosts prepared) (args : ReceiverArgs)
    (source : ℕ → List UInt8) :
  Proc.OnlyHosts (copyAfter prepared args source)
  := h.bind fun _ => (Receiver.onlyHosts_copyAll _ _ _).bind fun _ => Proc.onlyHosts_pure _

/-- The side of the destination, with the content of the files at hand, comes to its end by itself,
and what it replaces can be compared with what it puts there. -/
structure CopiesAfter (answer' : H' → (x : FsCall) → Option (FsReply x × H')) (dig : Digests)
    (prepared : Session FsReply Deleted) (args : ReceiverArgs) (source : ℕ → List UInt8) (h' : H')
    (deleted : Deleted) (stats : Stats) (k' : H') : Prop where
  returns : Proc.Returns answer' false (copyAfter prepared args source) ⟨h', [], [], []⟩
    (deleted, stats) ⟨k', [], [], []⟩
  compares : Proc.Meets (Receiver.compares answer' dig args)
    (Prog.Answers (Endpoint.answer answer' false)) (copyAfter prepared args source)
    ⟨h', [], [], []⟩

theorem CopiesAfter.split
    {prepared : Session FsReply Deleted} {args : ReceiverArgs} (hprepared : Proc.OnlyHosts prepared)
    (h : CopiesAfter answer' dig prepared args source h' deleted stats k') :
  ∃ h₁, Proc.Returns answer' false prepared ⟨h', [], [], []⟩ deleted ⟨h₁, [], [], []⟩ ∧
    Receiver.Copies answer' dig args source h₁ stats k'
  := by
  obtain ⟨hreturns, hmeets⟩ := h
  obtain ⟨d, w, hd, hreturns⟩ := hreturns.bind_inv
  replace hmeets := (hmeets.bind_right hd).bind_left
  have hw : w = ⟨w.host, [], [], []⟩ := (hprepared.frame hd).1
  rw [hw] at hd hreturns hmeets
  obtain ⟨st, w₁, hcopy, hreturns⟩ := hreturns.bind_inv
  obtain ⟨heq, rfl⟩ := hreturns.pure_inv
  cases heq
  exact ⟨w.host, hd, hcopy, hmeets⟩

/-- What follows the handshake in a pull comes to an end at both sides. -/
theorem reaches_pull_session
    {hs : Handshake} (hready : hs.Ready) (hsides : SidesAgree src dst)
    (hlinks : src.hardLinks = false) (hfilter : ∀ rule ∈ dst.filter.rules, rule.Fits)
    (hflist : flist = src.serverList { rules := dst.filter.rules.map FilterRule.resent })
    (hlist : SendableList flist.files)
    (hholds : HoldsSources answer J (SourceArg.serverBaseDir src.sources) flist.files source)
    (hh : J h) (hd : d = src.received hs flist)
    (hcopies : CopiesAfter answer' dig (dst.prepare d) (dst.receiverArgs hs d) source h' deleted
      stats k') :
  ∃ f ss s,
    Reaches answer answer'
        (talk (hs.goOn (src.serve dig F hs)) h (hs.goOn (dst.pull dig F hs)) h') f ∧
      Over f (.ok ss) (.ok (deleted, s)) ∧ s.stats = Receiver.pulled stats ∧ J f.1.2.host ∧
        f.2.2.host = k'
  := by
  have hstart : flist.ndxStart = 0 := by
    rw [hflist, SourceSide.serverList, SourceSide.listOf_eq hlinks]
    rfl
  obtain ⟨hagrees, bs, hsend, hread⟩ :=
    carries_sendList answer answer' hsides hready.protocol_ge hlinks hflist hlist
  rw [← hd] at hagrees hread
  obtain ⟨h₁, hprepared, hcopies⟩ := hcopies.split (dst.onlyHosts_prepare d)
  obtain ⟨f, ss, s, hsession, hover, hstats, -, hj, hk⟩ := Receiver.reaches_pulled (F := F)
    hready.protocol (agrees_of_handshake hready.plain flist d _)
    (servesAll_of_list hstart hlist.count hagrees (hd ▸ rfl) hholds) hh hcopies
  have hall : Reaches answer answer' (talk (src.serve dig F hs) h (dst.pull dig F hs) h')
      ((.ret (.ok ss), f.1.2), (.ret (.ok (deleted, s)), f.2.2)) := by
    unfold SourceSide.serve DestSide.pull
    apply (reaches_talk_send (dst.filter.returns_send false ⟨h', [], [], []⟩)
      (FilterList.reads_recvAndParse hfilter)).trans
    rw [← hflist]
    apply (reaches_talk_reply (hsend false ⟨h, [], [], []⟩) hread).trans
    apply (reaches_talk_right hprepared).trans
    have hlast := hsession.talk_bind hover pure fun s => pure (deleted, s)
    rwa [bind_pure] at hlast
  obtain ⟨g, hg, hover', hleft, hright⟩ :=
    hready.exists_goOn hall ⟨rfl, rfl, hover.leftSide, hover.rightSide⟩
  exact ⟨g, ss, s, hg, hover', hstats, hleft ▸ hj, hright.trans hk⟩

theorem reaches_pull_handshake
    (hspeaks : Speaks src dst) :
  Reaches answer answer' (talk (src.runServer dig F) h (dst.runClient dig F) h')
    (talk ((pullHandshake src dst).goOn (src.serve dig F (pullHandshake src dst))) h
      ((pullHandshake src dst).goOn (dst.pull dig F (pullHandshake src dst))) h')
  := by
  unfold SourceSide.runServer DestSide.runClient
  rw [hspeaks.sourcePlain, hspeaks.destPlain]
  exact Reaches.swap (reaches_connected hspeaks.destVersion hspeaks.sourceVersion _ _ _
    (fun hs => hs.goOn (dst.pull dig F hs)) fun hs => hs.goOn (src.serve dig F hs))

/-- In a pull the client and the server, whatever the timing, come to an end without an error. The
client has the list of the server, in which the server has left out what the rules of the client
exclude, and then the destination is as a copy leaves it that has the content of the files at
hand. -/
theorem pull_connection
    (hspeaks : Speaks src dst) (hlinks : src.hardLinks = false)
    (hfilter : ∀ rule ∈ dst.filter.rules, rule.Fits)
    (hflist : flist = src.serverList { rules := dst.filter.rules.map FilterRule.resent })
    (hlist : SendableList flist.files)
    (hholds : HoldsSources answer J (SourceArg.serverBaseDir src.sources) flist.files source)
    (hh : J h) (hd : d = src.received (pullHandshake src dst) flist)
    (hcopies : CopiesAfter answer' dig (dst.prepare d)
      (dst.receiverArgs (pullHandshake src dst) d) source h' deleted stats k') :
  List.Forall₂ (AgreesFully (pullHandshake src dst).protocol
      (checksumLenOf src.checksum (pullHandshake src dst).protocol) src.preserve)
      flist.files d.files ∧
    ∃ f ss s, Over f (.ok ss) (.ok (deleted, s)) ∧ s.stats = Receiver.pulled stats ∧
      J f.1.2.host ∧ f.2.2.host = k' ∧
      MustReach answer answer' (talk (src.runServer dig F) h (dst.runClient dig F) h') f
  := by
  have hready := ready_pullHandshake hspeaks
  obtain ⟨hagrees, -⟩ := carries_sendList answer answer' hspeaks.toSidesAgree
    hready.protocol_ge hlinks hflist hlist
  obtain ⟨f, ss, s, hsession, hover, hstats, hj, hk⟩ := reaches_pull_session (F := F) hready
    hspeaks.toSidesAgree hlinks hfilter hflist hlist hholds hh hd hcopies
  exact ⟨hd ▸ hagrees, f, ss, s, hover, hstats, hj, hk,
    Reaches.mustReach ((reaches_pull_handshake hspeaks).trans hsession) hover⟩

/-! A directory with two files is copied without one of them to where there is another file. -/

/-- A directory with a file and a file that no one wants. -/
def sourceTree : FsTree :=
  .dir {} (.cons ⟨[109], by decide, by decide, by decide, by decide⟩ (.file {} [7] true)
    (.cons ⟨[111], by decide, by decide, by decide, by decide⟩ (.file {} [8] true) .nil))

/-- The directory is the root. -/
def treeArg : SourceArg where
  arg := [sep]
  node := some sourceTree
  target := some sourceTree
  named := by decide

/-- The other file is left out. -/
def leaveOut : FilterList where
  rules := [buildRule ['o'] false]

/-- The side that has the directory. -/
def treeSource : SourceSide where
  delete := true
  walk := { filter := leaveOut }
  sources := [treeArg]

/-- The side where the directory is copied to. -/
def treeDest : DestSide where
  filter := leaveOut
  delete := true
  stack := 1
  options :=
    { flist := {}, destDir := [sep], csumType := .md5, protocol := 31, checksumSeed := 0 }

/-- What is listed of the directory. -/
def treeFiles : List FileInfo :=
  [{ name := [dot], mode := 0o040644, flags := flagTopDir },
    { name := [109], mode := 0o100644, size := 1 }]

theorem fits_leaveOut :
  ∀ rule ∈ leaveOut.rules, rule.Fits
  := by
  intro rule hrule
  rw [List.mem_singleton.mp hrule, FilterRule.Fits]
  decide +kernel

theorem speaks_tree :
  Speaks treeSource treeDest
  := ⟨⟨rfl, rfl, rfl⟩, .inr rfl, .inr rfl, rfl, rfl⟩

/-- The list of what is found in order. -/
theorem listOf_tree
    {found : List Found} (h : found.map Found.info = treeFiles) :
  treeSource.listOf found = { files := treeFiles, sorted := [0, 1] }
  := by
  have hsorted : treeFiles.mergeSort fileLe = treeFiles :=
    List.mergeSort_of_pairwise (by decide +kernel)
  rw [SourceSide.listOf_eq rfl, h, flistSort, hsorted]
  rfl

theorem sendableList_tree :
  SendableList treeFiles
  where
  entries := by decide +kernel
  paths := by decide +kernel
  targets := by decide +kernel
  count := by decide

/-- The file system of the source. -/
def treeDisk : Disk :=
  (Disk.blank.create [[109]] { kind := .file [7] }).create [[111]] { kind := .file [8] }

theorem holdsSources_tree :
  HoldsSources Disk.answer (fun d => ∃ n, d = { treeDisk with calls := n }) [sep]
    treeFiles fun _ => [7]
  := by
  intro i fi hfi hregular
  rcases i with _ | _ | i
  · cases hfi
    exact absurd hregular (by decide +kernel)
  · cases hfi
    refine ⟨by decide +kernel, ?_⟩
    rintro _ ⟨n, rfl⟩
    exact ⟨_, ⟨n + 1, rfl⟩, rfl⟩
  · cases hfi

/-- The file system of the destination. -/
def olderDisk : Disk :=
  Disk.blank.create [[103]] { kind := .file [9] }

/-- What is known of the three files. -/
def treeKinds (d : Disk) : List (Option FileKind) :=
  [[[109]], [[103]], [[111]]].map fun l => (d.inode? l).map Inode.kind

/-- The list as it is received. -/
def treeReceived (hs : Handshake) : FileList :=
  treeSource.received hs { files := treeFiles, sorted := [0, 1] }

/-- How the destination comes out is found by running its procedure. -/
theorem exists_copiesAfter
    {β : Type} {prepared : Session FsReply Deleted} (hprepared : Proc.OnlyHosts prepared)
    {args : ReceiverArgs} {disk : Disk} {n : ℕ} {b : β} (φ : Disk → β)
    (hrun : (Prog.eval (Endpoint.answer Disk.answer false) n
      (copyAfter prepared args source).run ⟨disk, [], [], []⟩).map
        (fun x => (x.1.toOption, φ x.2.host)) = some (some (deleted, stats), b))
    (habsent : (Prog.eval (Prog.onlyIf Receiver.absent (Endpoint.answer Disk.answer false)) n
      (copyAfter prepared args source).run ⟨disk, [], [], []⟩).isSome = true) :
  ∃ k, CopiesAfter Disk.answer dig prepared args source disk deleted stats k ∧ φ k = b
  := by
  obtain ⟨k, hreturns, hk⟩ :=
    Receiver.exists_returns (onlyHosts_copyAfter hprepared args source) φ hrun
  exact ⟨k, ⟨hreturns, Receiver.compares_absent habsent⟩, hk⟩

theorem copiesAfter_pull_tree :
  ∃ k', CopiesAfter Disk.answer digestsOfZeros
    (treeDest.prepare (treeReceived (pullHandshake treeSource treeDest)))
    (treeDest.receiverArgs (pullHandshake treeSource treeDest)
      (treeReceived (pullHandshake treeSource treeDest))) (fun _ => [7]) olderDisk { files := 1 }
    { numFiles := 1, xferredFiles := 1, createdFiles := 1, totalWritten := 1 } k' ∧
      treeKinds k' = [some (.file [7]), none, none]
  := exists_copiesAfter (n := 50) (treeDest.onlyHosts_prepare _) treeKinds (by decide +kernel)
    (by decide +kernel)

/-- The file is at the destination after a pull, and the one that was there is not. -/
theorem pull_connection_tree :
  ∃ f ss s, Over f (.ok ss) (.ok ({ files := 1 }, s)) ∧
    treeKinds f.2.2.host = [some (.file [7]), none, none] ∧
    MustReach Disk.answer Disk.answer
      (talk (treeSource.runServer digestsOfZeros StoredFlate.codec) treeDisk
        (treeDest.runClient digestsOfZeros StoredFlate.codec) olderDisk) f
  := by
  obtain ⟨k', hcopies, hkinds⟩ := copiesAfter_pull_tree
  have hflist : treeSource.serverList { rules := leaveOut.rules.map FilterRule.resent } =
      { files := treeFiles, sorted := [0, 1] } := listOf_tree (by decide +kernel)
  obtain ⟨-, f, ss, s, hover, -, -, hk, hmust⟩ :=
    pull_connection (F := StoredFlate.codec) speaks_tree rfl fits_leaveOut hflist.symm
      sendableList_tree holdsSources_tree ⟨0, rfl⟩ rfl hcopies
  exact ⟨f, ss, s, hover, hk ▸ hkinds, hmust⟩

/-! ### Push -/

theorem reads_recvFilterList :
  Proc.Reads answer' recvFilterList (leBytes 4 0) ()
  := by
  apply Proc.reads_loop_done
  apply (reads_readInt (by decide)).bind_nil
  apply Proc.reads_pure

/-- The client sends no rules to a server that removes files. -/
theorem reaches_dropped
    {α β : Type} (hdelete : src.delete = dst.delete) (p : Session FsReply α)
    (q : Session FsReply β) :
  Reaches answer answer'
    (talk (src.sendNoFilter >>= fun _ => p) h (dst.dropFilter >>= fun _ => q) h') (talk p h q h')
  := by
  unfold SourceSide.sendNoFilter DestSide.dropFilter
  rw [← hdelete]
  cases src.delete with
  | false => exact .refl
  | true =>
      have hsend : Proc.Returns answer false (do writeInt 0; flushOk : Session FsReply Unit)
          ⟨h, [], [], []⟩ () ⟨h, [], [], leBytes 4 0⟩ :=
        (writes_writeInt 0 false ⟨h, [], [], []⟩).bind (returns_flushOk false _)
      exact reaches_talk_reply hsend reads_recvFilterList

/-- What follows the handshake in a push comes to an end at both sides. -/
theorem reaches_push_session
    {hs : Handshake} (hready : hs.Ready) (hsides : SidesAgree src dst)
    (hdelete : src.delete = dst.delete) (hlinks : src.hardLinks = false)
    (hflist : flist = src.pushList) (hlist : SendableList flist.files)
    (hholds : HoldsSources answer J (SourceArg.pushBaseDir src.sources) flist.files source)
    (hh : J h) (hd : d = src.received hs flist)
    (hcopies : CopiesAfter answer' dig (dst.removeExtraneous d) (dst.receiverArgs hs d) source h'
      deleted stats k') :
  ∃ f ss s,
    Reaches answer answer'
        (talk (hs.goOn (src.push dig F hs)) h (hs.goOn (dst.serve dig F hs)) h') f ∧
      Over f (.ok ss) (.ok (deleted, s)) ∧ s.stats = stats ∧
        ss.stats.totalWritten = stats.totalWritten ∧ J f.1.2.host ∧ f.2.2.host = k'
  := by
  have hstart : flist.ndxStart = 0 := by
    rw [hflist, SourceSide.pushList, SourceSide.listOf_eq hlinks]
    rfl
  obtain ⟨hagrees, bs, hsend, hread⟩ :=
    carries_sendList answer answer' hsides hready.protocol_ge hlinks hflist hlist
  rw [← hd] at hagrees hread
  obtain ⟨h₁, hprepared, hcopies⟩ := hcopies.split (dst.onlyHosts_removeExtraneous d)
  obtain ⟨f, ss, s, hsession, hover, hstats, hsent, hj, hk⟩ := Receiver.reaches_pushed (F := F)
    hready.protocol (agrees_of_handshake hready.plain flist d _)
    (servesAll_of_list hstart hlist.count hagrees (hd ▸ rfl) hholds) hh hcopies
  have hall : Reaches answer answer' (talk (src.push dig F hs) h (dst.serve dig F hs) h')
      ((.ret (.ok ss), f.1.2), (.ret (.ok (deleted, s)), f.2.2)) := by
    unfold SourceSide.push DestSide.serve
    apply (reaches_dropped hdelete _ _).trans
    rw [← hflist]
    apply (reaches_talk_reply (hsend false ⟨h, [], [], []⟩) hread).trans
    apply (reaches_talk_right hprepared).trans
    have hlast := hsession.talk_bind hover pure fun s => pure (deleted, s)
    rwa [bind_pure] at hlast
  obtain ⟨g, hg, hover', hleft, hright⟩ :=
    hready.exists_goOn hall ⟨rfl, rfl, hover.leftSide, hover.rightSide⟩
  exact ⟨g, ss, s, hg, hover', hstats, hsent, hleft ▸ hj, hright.trans hk⟩

theorem reaches_push_handshake
    (hspeaks : Speaks src dst) :
  Reaches answer answer' (talk (src.runClient dig F) h (dst.runServer dig F) h')
    (talk ((pushHandshake src dst).goOn (src.push dig F (pushHandshake src dst))) h
      ((pushHandshake src dst).goOn (dst.serve dig F (pushHandshake src dst))) h')
  := by
  unfold SourceSide.runClient DestSide.runServer
  rw [hspeaks.sourcePlain, hspeaks.destPlain]
  exact reaches_connected hspeaks.sourceVersion hspeaks.destVersion _ _ _
    (fun hs => hs.goOn (src.push dig F hs)) fun hs => hs.goOn (dst.serve dig F hs)

/-- In a push the client and the server, whatever the timing, come to an end without an error. The
server has the list of the client, and then the destination is as a copy leaves it that has the
content of the files at hand. -/
theorem push_connection
    (hspeaks : Speaks src dst) (hdelete : src.delete = dst.delete)
    (hlinks : src.hardLinks = false) (hflist : flist = src.pushList)
    (hlist : SendableList flist.files)
    (hholds : HoldsSources answer J (SourceArg.pushBaseDir src.sources) flist.files source)
    (hh : J h) (hd : d = src.received (pushHandshake src dst) flist)
    (hcopies : CopiesAfter answer' dig (dst.removeExtraneous d)
      (dst.receiverArgs (pushHandshake src dst) d) source h' deleted stats k') :
  List.Forall₂ (AgreesFully (pushHandshake src dst).protocol
      (checksumLenOf src.checksum (pushHandshake src dst).protocol) src.preserve)
      flist.files d.files ∧
    ∃ f ss s, Over f (.ok ss) (.ok (deleted, s)) ∧ s.stats = stats ∧
      ss.stats.totalWritten = stats.totalWritten ∧ J f.1.2.host ∧ f.2.2.host = k' ∧
      MustReach answer answer' (talk (src.runClient dig F) h (dst.runServer dig F) h') f
  := by
  have hready := ready_pushHandshake hspeaks
  obtain ⟨hagrees, -⟩ := carries_sendList answer answer' hspeaks.toSidesAgree
    hready.protocol_ge hlinks hflist hlist
  obtain ⟨f, ss, s, hsession, hover, hstats, hsent, hj, hk⟩ := reaches_push_session (F := F)
    hready hspeaks.toSidesAgree hdelete hlinks hflist hlist hholds hh hd hcopies
  exact ⟨hd ▸ hagrees, f, ss, s, hover, hstats, hsent, hj, hk,
    Reaches.mustReach ((reaches_push_handshake hspeaks).trans hsession) hover⟩

theorem copiesAfter_push_tree :
  ∃ k', CopiesAfter Disk.answer digestsOfZeros
    (treeDest.removeExtraneous (treeReceived (pushHandshake treeSource treeDest)))
    (treeDest.receiverArgs (pushHandshake treeSource treeDest)
      (treeReceived (pushHandshake treeSource treeDest))) (fun _ => [7]) olderDisk { files := 1 }
    { numFiles := 1, xferredFiles := 1, createdFiles := 1, totalWritten := 1 } k' ∧
      treeKinds k' = [some (.file [7]), none, none]
  := exists_copiesAfter (n := 50) (treeDest.onlyHosts_removeExtraneous _) treeKinds
    (by decide +kernel) (by decide +kernel)

/-- The file is at the destination after a push, and the one that was there is not. -/
theorem push_connection_tree :
  ∃ f ss s, Over f (.ok ss) (.ok ({ files := 1 }, s)) ∧
    treeKinds f.2.2.host = [some (.file [7]), none, none] ∧
    MustReach Disk.answer Disk.answer
      (talk (treeSource.runClient digestsOfZeros StoredFlate.codec) treeDisk
        (treeDest.runServer digestsOfZeros StoredFlate.codec) olderDisk) f
  := by
  obtain ⟨k', hcopies, hkinds⟩ := copiesAfter_push_tree
  have hflist : treeSource.pushList = { files := treeFiles, sorted := [0, 1] } :=
    listOf_tree (by decide +kernel)
  obtain ⟨-, f, ss, s, hover, -, -, -, hk, hmust⟩ :=
    push_connection (F := StoredFlate.codec) speaks_tree rfl rfl hflist.symm sendableList_tree
      holdsSources_tree ⟨0, rfl⟩ rfl hcopies
  exact ⟨f, ss, s, hover, hk ▸ hkinds, hmust⟩

end Connections
