import Mathlib.Data.List.Basic
import RsyncRs.Flist.Transfer
import RsyncRs.Io.Demultiplex
import RsyncRs.Io.Marked
import RsyncRs.Program.Duplex
import RsyncRs.Str

/-!
# The handshake

The two ends exchange their versions. From protocol 30 on the server sends the compatibility
flags and the names of what it knows, the client answers with names of its own, and the server
ends with the seed of the checksums. Then both switch to frames, each by a rule of its own.
-/

variable {X : Type} {Reply : X → Type} {H : Type}
  {answer : H → (x : X) → Option (Reply x × H)}

/-! ### The version -/

/-- Exchange the versions: the server reads first, the client writes first. -/
def exchangeVersions (localVersion : ℕ) (amServer : Bool) : Session Reply ℕ :=
  if amServer then do
    let v ← readInt
    writeInt localVersion
    flushOk
    pure (asU32 v)
  else do
    writeInt localVersion
    flushOk
    let v ← readInt
    pure (asU32 v)

/-- The smaller version, when the one of the peer is in the range. -/
def checkVersion (localVersion remote : ℕ) : Session Reply ℕ :=
  if remote < 20 then
    throw (.other s!"remote protocol {remote} is too old (min 20)")
  else if 40 < remote then
    throw (.other s!"remote protocol {remote} is too new (max 40)")
  else
    pure (min localVersion remote)

/-- Agree on the smaller version. -/
def protocolHandshake (localVersion : ℕ) (amServer : Bool) : Session Reply ℕ := do
  let remote ← exchangeVersions localVersion amServer
  checkVersion localVersion remote

/-! ### Compatibility -/

/-- Compatibility flag: errors are reported at the end of the file list. -/
def cfSafeFlist : ℕ := 1 <<< 3

/-- The parts of a string between white space. -/
def Str.splitWhitespace (s : Str) : List Str :=
  (s.splitOnP Str.isWhitespace).filter fun part => part ≠ []

/-- The first of our names that the peer has too. -/
def negotiate (ourList peerList : Str) : Option Str :=
  ourList.splitWhitespace.find? fun tok => peerList.splitWhitespace.contains tok

/-- What both ends have after the compatibility flags were exchanged. -/
structure Compat where
  doVarint : Bool := false
  checksumSeed : ℤ := 0
  compressionChoice : Option Str := none
  compatFlags : ℕ := 0
deriving DecidableEq, Repr

/-- Send the names of the checksums and of the compressions that are known. -/
def writeLists (doCompression : Bool) : Session Reply Unit := do
  writeVstring (bytesOf "md5")
  if doCompression then writeVstring (bytesOf "zlib none") else pure ()

/-- Receive the names of the compressions that the peer knows, after those of its checksums. -/
def readLists (doCompression : Bool) : Session Reply (Option (List UInt8)) := do
  let _ ← okOrNone readVstring
  if doCompression then okOrNone readVstring else pure none

/-- The compression on which the two ends agree. -/
def chooseCompression (doCompression : Bool) (peerList : Option (List UInt8)) : Option Str :=
  if doCompression then
    peerList.bind fun peer => negotiate "zlib none".toList (strOf peer)
  else
    none

/-- Send the names when the names are negotiated. -/
def offerLists (doVarint doCompression : Bool) : Session Reply Unit :=
  if doVarint then writeLists doCompression else pure ()

/-- The names of the client when the names are negotiated. -/
def clientLists (doVarint doCompression : Bool) : Session Reply (Option (List UInt8)) :=
  if doVarint then readLists doCompression else pure none

/-- The flags of the server. -/
def compatFlagsOf (recursive : Bool) : ℕ :=
  (if recursive then cfIncRecurse else 0) ||| cfVarintFlistFlags ||| cfSafeFlist

/-- The seed that the server makes of the time and of the number of its process. -/
def checksumSeedOf (now pid : ℕ) : ℤ :=
  wrapI32 (now % 4294967296 ^^^ (pid <<< 6) % 4294967296 : ℕ)

/-- The server's part. -/
def setupCompat (recursive : Bool) (protocol : ℕ) (doCompression : Bool) (now pid : ℕ) :
    Session Reply Compat :=
  if protocol < 30 then
    pure {}
  else do
    let compatFlags := compatFlagsOf recursive
    writeVarint compatFlags
    let doVarint := hasFlag compatFlags cfVarintFlistFlags
    offerLists doVarint doCompression
    flushOk
    let clientCompress ← clientLists doVarint doCompression
    let checksumSeed := checksumSeedOf now pid
    writeInt checksumSeed
    flushOk
    pure { doVarint, checksumSeed, compatFlags,
           compressionChoice := chooseCompression doCompression clientCompress }

/-- Answer the names of the server. -/
def answerLists (doCompression : Bool) : Session Reply (Option (List UInt8)) := do
  let serverCompress ← readLists doCompression
  writeLists doCompression
  flushOk
  pure serverCompress

/-- The names of the server when the names are negotiated. -/
def serverLists (doVarint doCompression : Bool) : Session Reply (Option (List UInt8)) :=
  if doVarint then answerLists doCompression else pure none

/-- The client's part. -/
def setupCompatClient (protocol : ℕ) (doCompression : Bool) : Session Reply Compat :=
  if protocol < 30 then
    pure {}
  else do
    let flags ← readVarint
    let compatFlags := asU32 flags
    let doVarint := hasFlag compatFlags cfVarintFlistFlags
    let serverCompress ← serverLists doVarint doCompression
    let checksumSeed ← readInt
    pure { doVarint, checksumSeed, compatFlags,
           compressionChoice := chooseCompression doCompression serverCompress }

/-! ### The two ends -/

/-- What an end has after the handshake. -/
structure Handshake where
  protocol : ℕ
  compat : Compat
  /-- What is written is wrapped into frames. -/
  writerEnabled : Bool
  /-- What is read is taken out of frames. -/
  readerEnabled : Bool
deriving DecidableEq, Repr

/-- The server's part, which it has from protocol 30 on. -/
def serverCompat (recursive : Bool) (protocol : ℕ) (doCompression : Bool) (now pid : ℕ) :
    Session Reply Compat :=
  if 30 ≤ protocol then setupCompat recursive protocol doCompression now pid else pure {}

/-- The client's part, which it has from protocol 30 on. -/
def clientCompat (protocol : ℕ) (doCompression : Bool) : Session Reply Compat :=
  if 30 ≤ protocol then setupCompatClient protocol doCompression else pure {}

/-- The server up to the switch to frames. -/
def runServerIo (localVersion : ℕ) (recursive doCompression : Bool) (now pid : ℕ) :
    Session Reply Handshake := do
  let protocol ← protocolHandshake localVersion true
  let compat ← serverCompat recursive protocol doCompression now pid
  pure { protocol, compat, writerEnabled := true, readerEnabled := 30 ≤ protocol }

/-- The client up to the switch to frames. -/
def runClientProtocol (localVersion : ℕ) (doCompression : Bool) : Session Reply Handshake := do
  let protocol ← protocolHandshake localVersion false
  let compat ← clientCompat protocol doCompression
  pure { protocol, compat, writerEnabled := 30 ≤ protocol, readerEnabled := 30 ≤ protocol }

/-! ### What is exchanged -/

/-- The bytes of the names. -/
def listsBytes (doCompression : Bool) : List UInt8 :=
  encodeVstring (bytesOf "md5") ++
    if doCompression then encodeVstring (bytesOf "zlib none") else []

theorem writes_writeLists
    (doCompression : Bool) :
  Proc.Writes answer (writeLists doCompression : Session Reply Unit) (listsBytes doCompression) ()
  := by
  have hchecksums : Proc.Writes answer (writeVstring (bytesOf "md5") : Session Reply Unit)
      (encodeVstring (bytesOf "md5")) () := writes_writeVstring (by decide)
  have hcompressions : Proc.Writes answer (writeVstring (bytesOf "zlib none") : Session Reply Unit)
      (encodeVstring (bytesOf "zlib none")) () := writes_writeVstring (by decide)
  cases doCompression with
  | false => exact hchecksums.bind (Proc.writes_pure _)
  | true => exact hchecksums.bind hcompressions

/-- The names of the compressions, when there are any. -/
def compressions (doCompression : Bool) : Option (List UInt8) :=
  if doCompression then some (bytesOf "zlib none") else none

theorem reads_readLists
    (doCompression : Bool) :
  Proc.Reads answer (readLists doCompression : Session Reply (Option (List UInt8)))
    (listsBytes doCompression) (compressions doCompression)
  := by
  have hchecksums : Proc.Reads answer
      (okOrNone readVstring : Session Reply (Option (List UInt8)))
      (encodeVstring (bytesOf "md5")) (some (bytesOf "md5")) :=
    reads_okOrNone (reads_readVstring (by decide) (isUtf8_ascii (by decide +kernel)))
  apply hchecksums.bind
  cases doCompression with
  | false => apply Proc.reads_pure
  | true => exact reads_okOrNone (reads_readVstring (by decide) (isUtf8_ascii (by decide +kernel)))

theorem hasFlag_compatFlagsOf
    (recursive : Bool) :
  hasFlag (compatFlagsOf recursive) cfVarintFlistFlags = true
  := by
  cases recursive <;> decide

theorem compatFlagsOf_lt
    (recursive : Bool) :
  compatFlagsOf recursive < 256
  := by
  cases recursive <;> decide

theorem asU32_natCast
    {n : ℕ} (h : n < 4294967296) :
  asU32 n = n
  := by
  unfold asU32
  omega

/-- The flags and the names that the server offers. -/
def offerBytes (recursive doCompression : Bool) : List UInt8 :=
  encodeVarint (compatFlagsOf recursive) ++ listsBytes doCompression

/-- What both ends have when they agree. -/
def agreedCompat (recursive : Bool) (protocol : ℕ) (doCompression : Bool) (now pid : ℕ) : Compat :=
  if protocol < 30 then {}
  else
    { doVarint := true, checksumSeed := checksumSeedOf now pid,
      compatFlags := compatFlagsOf recursive,
      compressionChoice := chooseCompression doCompression (compressions doCompression) }

/-- A version that is accepted is agreed upon. -/
theorem returns_checkVersion
    {closed : Bool} {localVersion remote : ℕ} (hlow : 20 ≤ remote) (hhigh : remote ≤ 40)
    (w : Endpoint H UInt8) :
  Proc.Returns answer closed (checkVersion localVersion remote : Session Reply ℕ) w
    (min localVersion remote) w
  := by
  unfold checkVersion
  rw [if_neg (by omega), if_neg (by omega)]
  apply Proc.returns_pure

/-- Read a version. -/
def readVersion : Session Reply ℕ := do
  let v ← readInt
  pure (asU32 v)

theorem reads_readVersion
    {v : ℕ} (hv : v ≤ 40) :
  Proc.Reads answer (readVersion : Session Reply ℕ) (leBytes 4 v) v
  := by
  have h32 : IsI32 (v : ℤ) := by
    unfold IsI32
    omega
  exact (reads_readInt h32).map_eq _ (asU32_natCast (by omega))

/-! ### The runs -/

/-- The client waits for the version of the server. -/
def awaitVersion (localVersion : ℕ) (doCompression : Bool) : Session Reply Handshake :=
  (readVersion >>= checkVersion localVersion) >>= fun protocol =>
    clientCompat protocol doCompression >>= fun compat =>
      pure { protocol, compat, writerEnabled := 30 ≤ protocol, readerEnabled := 30 ≤ protocol }

/-- The server waits for the names of the client. -/
def awaitLists (recursive : Bool) (protocol : ℕ) (doCompression : Bool) (now pid : ℕ) :
    Session Reply Handshake :=
  (clientLists true doCompression >>= fun clientCompress => do
    let checksumSeed := checksumSeedOf now pid
    writeInt checksumSeed
    flushOk
    pure { doVarint := true, checksumSeed, compatFlags := compatFlagsOf recursive,
           compressionChoice := chooseCompression doCompression clientCompress }) >>= fun compat =>
    pure { protocol, compat, writerEnabled := true, readerEnabled := 30 ≤ protocol }

/-- The client waits for the seed. -/
def awaitSeed (recursive : Bool) (protocol : ℕ) (doCompression : Bool) :
    Session Reply Handshake :=
  (readInt >>= fun checksumSeed =>
    pure { doVarint := true, checksumSeed, compatFlags := compatFlagsOf recursive,
           compressionChoice := chooseCompression doCompression
             (compressions doCompression) }) >>= fun compat =>
    pure { protocol, compat, writerEnabled := 30 ≤ protocol, readerEnabled := 30 ≤ protocol }

/-- The client starts with its version. -/
theorem comes_awaitVersion
    (h : H) (localVersion : ℕ) (doCompression : Bool) :
  Proc.Comes answer (runClientProtocol localVersion doCompression : Session Reply Handshake)
    ⟨h, [], [], []⟩ (awaitVersion localVersion doCompression) ⟨h, [], [], leBytes 4 localVersion⟩
  := by
  have hversion : Proc.Comes answer (exchangeVersions localVersion false : Session Reply ℕ)
      ⟨h, [], [], []⟩ readVersion ⟨h, [], [], leBytes 4 localVersion⟩ :=
    (((writes_writeInt localVersion) false ⟨h, [], [], []⟩).comes _).trans
      ((returns_flushOk false _).comes _)
  exact (hversion.bind _).bind _

/-- The server answers the version of the client. -/
theorem returns_protocolHandshake
    {closed : Bool} {client server : ℕ} (hlow : 20 ≤ client) (hhigh : client ≤ 40) (h : H) :
  Proc.Returns answer closed (protocolHandshake server true : Session Reply ℕ)
    ⟨h, leBytes 4 client, [], []⟩ (min server client) ⟨h, [], [], leBytes 4 server⟩
  := by
  have hversion : Proc.Returns answer closed (exchangeVersions server true : Session Reply ℕ)
      ⟨h, leBytes 4 client, [], []⟩ client ⟨h, [], [], leBytes 4 server⟩ := by
    have h32 : IsI32 (client : ℤ) := by
      unfold IsI32
      omega
    apply (reads_readInt h32 closed ⟨h, leBytes 4 client, [], []⟩ []
      (List.append_nil _).symm).bind
    apply Proc.Returns.bind (writes_writeInt server closed ⟨h, [], [], []⟩)
    apply (returns_flushOk closed _).bind
    rw [asU32_natCast (by omega)]
    apply Proc.returns_pure
  apply hversion.bind (returns_checkVersion hlow hhigh _)

/-- The server offers its flags and its names. -/
theorem comes_awaitLists
    {client server : ℕ} (hlow : 20 ≤ client) (hhigh : client ≤ 40) (hmin : 30 ≤ min server client)
    (h : H) (recursive doCompression : Bool) (now pid : ℕ) :
  Proc.Comes answer
    (runServerIo server recursive doCompression now pid : Session Reply Handshake)
    ⟨h, leBytes 4 client, [], []⟩
    (awaitLists recursive (min server client) doCompression now pid)
    ⟨h, [], [], leBytes 4 server ++ offerBytes recursive doCompression⟩
  := by
  have hprotocol : Proc.Returns answer false (protocolHandshake server true : Session Reply ℕ)
      ⟨h, leBytes 4 client, [], []⟩ (min server client) ⟨h, [], [], leBytes 4 server⟩ :=
    returns_protocolHandshake hlow hhigh h
  apply (hprotocol.comes _).trans
  apply Proc.Comes.bind
  unfold serverCompat setupCompat
  rw [if_pos hmin, if_neg (by omega)]
  simp only [hasFlag_compatFlagsOf]
  apply (((writes_writeVarint _) false ⟨h, [], [], leBytes 4 server⟩).comes _).trans
  have hlists : Proc.Writes answer (offerLists true doCompression : Session Reply Unit)
      (listsBytes doCompression) () := writes_writeLists doCompression
  apply ((hlists false _).comes _).trans
  exact (returns_flushOk false _).comes _

/-- The client answers the names of the server. -/
theorem comes_awaitSeed
    {client server : ℕ} (hlow : 20 ≤ server) (hhigh : server ≤ 40) (hmin : 30 ≤ min client server)
    (h : H) (recursive doCompression : Bool) :
  Proc.Comes answer (awaitVersion client doCompression : Session Reply Handshake)
    ⟨h, leBytes 4 server ++ offerBytes recursive doCompression, [], []⟩
    (awaitSeed recursive (min client server) doCompression)
    ⟨h, [], [], listsBytes doCompression⟩
  := by
  have hversion : Proc.Returns answer false
      (readVersion >>= checkVersion client : Session Reply ℕ)
      ⟨h, leBytes 4 server ++ offerBytes recursive doCompression, [], []⟩ (min client server)
      ⟨h, offerBytes recursive doCompression, [], []⟩ := by
    apply Proc.Returns.bind (reads_readVersion hhigh false _ _ rfl)
    apply returns_checkVersion hlow hhigh
  have hlists : Proc.Returns answer false
      (serverLists true doCompression : Session Reply (Option (List UInt8)))
      ⟨h, listsBytes doCompression, [], []⟩ (compressions doCompression)
      ⟨h, [], [], listsBytes doCompression⟩ := by
    apply Proc.Returns.bind (reads_readLists doCompression false
      ⟨h, listsBytes doCompression, [], []⟩ [] (List.append_nil _).symm)
    apply Proc.Returns.bind (writes_writeLists doCompression false ⟨h, [], [], []⟩)
    apply (returns_flushOk false _).bind
    apply Proc.returns_pure
  have hsmall := compatFlagsOf_lt recursive
  have h32 : IsI32 (compatFlagsOf recursive : ℤ) := by
    unfold IsI32
    omega
  apply (hversion.comes _).trans
  apply Proc.Comes.bind
  unfold clientCompat setupCompatClient
  rw [if_pos hmin, if_neg (by omega)]
  apply (Proc.Returns.comes (reads_readVarint h32 false
    ⟨h, offerBytes recursive doCompression, [], []⟩ (listsBytes doCompression) rfl) _).trans
  simp only [asU32_natCast (show compatFlagsOf recursive < 4294967296 by omega),
    hasFlag_compatFlagsOf]
  exact hlists.comes _

/-- The server ends with the seed. -/
theorem returns_awaitLists
    {closed : Bool} {protocol : ℕ} (hmin : 30 ≤ protocol) (h : H) (recursive doCompression : Bool)
    (now pid : ℕ) :
  Proc.Returns answer closed
    (awaitLists recursive protocol doCompression now pid : Session Reply Handshake)
    ⟨h, listsBytes doCompression, [], []⟩
    { protocol, compat := agreedCompat recursive protocol doCompression now pid,
      writerEnabled := true, readerEnabled := true }
    ⟨h, [], [], leBytes 4 (checksumSeedOf now pid)⟩
  := by
  apply Proc.Returns.bind
  · apply Proc.Returns.bind (reads_readLists doCompression closed
      ⟨h, listsBytes doCompression, [], []⟩ [] (List.append_nil _).symm)
    apply Proc.Returns.bind (writes_writeInt (checksumSeedOf now pid) closed ⟨h, [], [], []⟩)
    apply (returns_flushOk closed _).bind
    apply Proc.returns_pure
  · rw [agreedCompat, if_neg (by omega)]
    simp only [hmin, decide_true]
    apply Proc.returns_pure

theorem isI32_checksumSeedOf
    (now pid : ℕ) :
  IsI32 (checksumSeedOf now pid)
  := isI32_wrapI32 _

/-- The client ends with the seed. -/
theorem returns_awaitSeed
    {closed : Bool} {protocol : ℕ} (hmin : 30 ≤ protocol) (h : H) (recursive doCompression : Bool)
    (now pid : ℕ) :
  Proc.Returns answer closed
    (awaitSeed recursive protocol doCompression : Session Reply Handshake)
    ⟨h, leBytes 4 (checksumSeedOf now pid), [], []⟩
    { protocol, compat := agreedCompat recursive protocol doCompression now pid,
      writerEnabled := true, readerEnabled := true }
    ⟨h, [], [], []⟩
  := by
  apply Proc.Returns.bind
  · apply Proc.Returns.bind (reads_readInt (isI32_checksumSeedOf now pid) closed
      ⟨h, leBytes 4 (checksumSeedOf now pid), [], []⟩ [] (List.append_nil _).symm)
    apply Proc.returns_pure
  · rw [agreedCompat, if_neg (by omega)]
    simp only [hmin, decide_true]
    apply Proc.returns_pure

/-- Before protocol 30 the server is done with its version. -/
theorem returns_runServerIo_old
    {closed : Bool} {client server : ℕ} (hlow : 20 ≤ client) (hhigh : client ≤ 40)
    (hmin : min server client < 30) (h : H) (recursive doCompression : Bool) (now pid : ℕ) :
  Proc.Returns answer closed
    (runServerIo server recursive doCompression now pid : Session Reply Handshake)
    ⟨h, leBytes 4 client, [], []⟩
    { protocol := min server client,
      compat := agreedCompat recursive (min server client) doCompression now pid,
      writerEnabled := true, readerEnabled := false }
    ⟨h, [], [], leBytes 4 server⟩
  := by
  apply (returns_protocolHandshake hlow hhigh h).bind
  unfold serverCompat
  rw [agreedCompat, if_neg (by omega), if_pos hmin]
  apply (Proc.returns_pure _ _).bind
  simp only [show ¬ 30 ≤ min server client by omega, decide_false]
  apply Proc.returns_pure

/-- Before protocol 30 the client is done with the version of the server. -/
theorem returns_awaitVersion_old
    {closed : Bool} {client server : ℕ} (hlow : 20 ≤ server) (hhigh : server ≤ 40)
    (hmin : min client server < 30) (h : H) (recursive doCompression : Bool) (now pid : ℕ) :
  Proc.Returns answer closed (awaitVersion client doCompression : Session Reply Handshake)
    ⟨h, leBytes 4 server, [], []⟩
    { protocol := min client server,
      compat := agreedCompat recursive (min client server) doCompression now pid,
      writerEnabled := false, readerEnabled := false }
    ⟨h, [], [], []⟩
  := by
  have hversion : Proc.Returns answer closed
      (readVersion >>= checkVersion client : Session Reply ℕ)
      ⟨h, leBytes 4 server, [], []⟩ (min client server) ⟨h, [], [], []⟩ := by
    apply Proc.Returns.bind (reads_readVersion hhigh closed ⟨h, leBytes 4 server, [], []⟩ []
      (List.append_nil _).symm)
    apply returns_checkVersion hlow hhigh
  apply hversion.bind
  unfold clientCompat
  rw [agreedCompat, if_neg (by omega), if_pos hmin]
  apply (Proc.returns_pure _ _).bind
  simp only [show ¬ 30 ≤ min client server by omega, decide_false]
  apply Proc.returns_pure

/-! ### The two ends over their queues -/

section Duplex

open Duplex Relation

variable {Y : Type} {Reply' : Y → Type} {H' : Type}
  {answer' : H' → (y : Y) → Option (Reply' y × H')}

/-- The client and the server before they have done anything. -/
def handshakeStart (client server : ℕ) (recursive doCompression : Bool) (now pid : ℕ) (h : H)
    (h' : H') :
    Party UInt8 Reply H (Except Error Handshake) ×
      Party UInt8 Reply' H' (Except Error Handshake) :=
  (((runClientProtocol client doCompression).run, ⟨h, [], [], []⟩),
    ((runServerIo server recursive doCompression now pid).run, ⟨h', [], [], []⟩))

/-- What both ends have of the handshake. -/
def agreed (writerEnabled : Bool) (client server : ℕ) (recursive doCompression : Bool)
    (now pid : ℕ) : Handshake :=
  { protocol := min client server,
    compat := agreedCompat recursive (min client server) doCompression now pid,
    writerEnabled, readerEnabled := 30 ≤ min client server }

/-- There is a run of the handshake that ends, and it leaves both hosts alone. -/
theorem reaches_agreed_alone
    {client server : ℕ} (hclient : 20 ≤ client ∧ client ≤ 40) (hserver : 20 ≤ server ∧ server ≤ 40)
    (recursive doCompression : Bool) (now pid : ℕ) (h : H) (h' : H') :
  Reaches answer answer' (handshakeStart client server recursive doCompression now pid h h')
    ((.ret (.ok (agreed (30 ≤ min client server) client server recursive doCompression now pid)),
        ⟨h, [], [], []⟩),
      (.ret (.ok (agreed true client server recursive doCompression now pid)), ⟨h', [], [], []⟩))
  := by
  apply (reaches_left _ (comes_awaitVersion h client doCompression)).trans
  apply (reaches_toRight _ _).trans
  by_cases hmin : 30 ≤ min client server
  · simp only [agreed, hmin, decide_true]
    apply (reaches_right _ (comes_awaitLists hclient.1 hclient.2 (min_comm client server ▸ hmin) h'
      recursive doCompression now pid)).trans
    apply (reaches_toLeft _ _).trans
    apply (reaches_left _ (comes_awaitSeed hserver.1 hserver.2 hmin h recursive
      doCompression)).trans
    apply (reaches_toRight _ _).trans
    apply (reaches_right _ (returns_awaitLists (min_comm client server ▸ hmin) h' recursive
      doCompression now pid)).trans
    apply (reaches_toLeft _ _).trans
    rw [min_comm server client]
    exact reaches_left _ (returns_awaitSeed hmin h recursive doCompression now pid)
  · simp only [agreed, hmin, decide_false]
    have hlt : min client server < 30 := not_le.mp hmin
    apply (reaches_right _ (returns_runServerIo_old hclient.1 hclient.2
      (min_comm client server ▸ hlt) h' recursive doCompression now pid)).trans
    apply (reaches_toLeft _ _).trans
    rw [min_comm server client]
    exact reaches_left _ (returns_awaitVersion_old hserver.1 hserver.2 hlt h recursive
      doCompression now pid)

/-- There is a run of the handshake that ends. -/
theorem reaches_agreed
    {client server : ℕ} (hclient : 20 ≤ client ∧ client ≤ 40) (hserver : 20 ≤ server ∧ server ≤ 40)
    (recursive doCompression : Bool) (now pid : ℕ) (h : H) (h' : H') :
  ∃ f, Reaches answer answer'
      (handshakeStart client server recursive doCompression now pid h h') f ∧
    Done f
      (.ok (agreed (30 ≤ min client server) client server recursive doCompression now pid))
      (.ok (agreed true client server recursive doCompression now pid))
  := ⟨_, reaches_agreed_alone hclient hserver recursive doCompression now pid h h',
    ⟨rfl, rfl, ⟨rfl, rfl, rfl⟩, ⟨rfl, rfl, rfl⟩⟩⟩

/-- Whatever is written at one end is read at the other. -/
def CarriesAll (framed demuxed : Bool) : Prop :=
  ∀ bufs : List (List UInt8),
    ∃ w, Emission.emitAll (bufs.map .data) { enabled := framed } = .ok w ∧ ∀ sizes ns,
      let results := (MplexReader.reads ns ⟨⟨w.inner, sizes⟩, demuxed, 0⟩).1
      ∃ rest, MplexReader.returned results ++ rest = bufs.flatten ∧
        (bufs.flatten.length ≤ (ns.filter (0 < ·)).length → rest = [])

/-- The two ends agree on the result of the handshake. -/
structure Agreement (c s : Handshake) : Prop where
  protocol : c.protocol = s.protocol
  compat : c.compat = s.compat
  framesToServer : c.writerEnabled = s.readerEnabled
  framesToClient : s.writerEnabled = c.readerEnabled
  toServer : CarriesAll c.writerEnabled s.readerEnabled
  toClient : CarriesAll s.writerEnabled c.readerEnabled

/-- Whatever has happened, the two ends may still come to an end at which they agree and nothing
is left to read. -/
def HandshakeAgrees (answer : H → (x : X) → Option (Reply x × H))
    (answer' : H' → (y : Y) → Option (Reply' y × H')) (client server : ℕ)
    (recursive doCompression : Bool) (now pid : ℕ) : Prop :=
  ∀ (h : H) (h' : H') (t : Party UInt8 Reply H (Except Error Handshake) ×
      Party UInt8 Reply' H' (Except Error Handshake)),
    Reaches answer answer'
      (handshakeStart client server recursive doCompression now pid h h') t →
    ∃ f c s, Reaches answer answer' t f ∧ Done f (.ok c) (.ok s) ∧ Agreement c s

/-- Both ends wrap, or neither does. -/
theorem carriesAll_same
    (framed : Bool) :
  CarriesAll framed framed
  := by
  intro bufs
  cases framed with
  | false =>
      refine ⟨_, MplexWriter.emitAll_raw rfl bufs, ?_⟩
      intro sizes ns
      apply MplexReader.reads_raw rfl
  | true =>
      have hwritten : (bufs.map Emission.data).flatMap Emission.payload = bufs.flatten := by
        induction bufs with
        | nil => rfl
        | cons buf bufs ih => rw [List.map_cons, List.flatMap_cons, ih, List.flatten_cons,
            Emission.payload]
      have hfits : ∀ x ∈ bufs.map Emission.data, x.Fits := by
        simp [Emission.Fits]
      obtain ⟨w, hemit, hreads⟩ := demux_mux hfits
      refine ⟨w, hemit, ?_⟩
      intro sizes ns
      obtain ⟨rest, hsplit, -, hall⟩ := hreads sizes ns
      rw [hwritten] at hsplit hall
      exact ⟨rest, hsplit, hall⟩

/-- A reader without frames returns the headers too. -/
theorem not_carriesAll_raw :
  ¬ CarriesAll true false
  := by
  intro h
  obtain ⟨w, hemit, hreads⟩ := h [[0]]
  have hfits : ∀ x ∈ [[0]].map Emission.data, x.Fits := by
    simp [Emission.Fits]
  obtain ⟨w', fs, hemit', hwraps⟩ := MplexWriter.emitAll_spec MplexWriter.wraps_nil hfits
  cases hemit.symm.trans hemit'
  have hlong : 4 ≤ w.inner.length := by
    rw [hwraps.inner]
    cases fs with
    | nil => exact absurd hwraps.data (by decide)
    | cons f fs =>
        rw [List.flatMap_cons, Frame.bytes, List.length_append, List.length_append,
          length_leBytes]
        simp only [List.length_cons]
        omega
  have hfilter : ((List.replicate w.inner.length 1).filter (0 < ·)).length = w.inner.length := by
    simp
  obtain ⟨rest, hsplit, hall⟩ := hreads [] (List.replicate w.inner.length 1)
  obtain ⟨rest', hraw, hall'⟩ := MplexReader.reads_raw (r := ⟨⟨w.inner, []⟩, false, 0⟩) rfl
    (List.replicate w.inner.length 1)
  rw [hall' hfilter.ge, List.append_nil] at hraw
  rw [hfilter] at hall
  rw [hall (by simp; omega), List.append_nil, hraw] at hsplit
  change w.inner = [0] at hsplit
  rw [hsplit] at hlong
  exact absurd hlong (by decide)

/-- Before protocol 30 the client takes the frames of the server for what was written. -/
theorem not_handshakeAgrees
    {client server : ℕ} (hclient : 20 ≤ client ∧ client ≤ 40) (hserver : 20 ≤ server ∧ server ≤ 40)
    (hmin : min client server < 30) (recursive doCompression : Bool) (now pid : ℕ) [Nonempty H]
    [Nonempty H'] :
  ¬ HandshakeAgrees answer answer' client server recursive doCompression now pid
  := by
  intro hagrees
  obtain ⟨h⟩ := ‹Nonempty H›
  obtain ⟨h'⟩ := ‹Nonempty H'›
  obtain ⟨f, c, s, hf, hdone, hagree⟩ := hagrees h h' _ ReflTransGen.refl
  obtain ⟨f₀, hf₀, hdone₀⟩ := reaches_agreed hclient hserver recursive doCompression now pid h h'
  obtain ⟨hc, hs⟩ := hdone₀.unique hf₀ hf hdone
  cases hc
  cases hs
  have hdeliver := hagree.toClient
  simp only [agreed, not_le.mpr hmin, decide_false] at hdeliver
  apply not_carriesAll_raw hdeliver

/-- The two ends agree exactly from protocol 30 on. -/
theorem handshakeAgrees_iff
    {client server : ℕ} (hclient : 20 ≤ client ∧ client ≤ 40) (hserver : 20 ≤ server ∧ server ≤ 40)
    (recursive doCompression : Bool) (now pid : ℕ) [Nonempty H] [Nonempty H'] :
  HandshakeAgrees answer answer' client server recursive doCompression now pid ↔
    30 ≤ min client server
  := by
  constructor
  · intro hagrees
    by_contra hmin
    apply not_handshakeAgrees hclient hserver (not_le.mp hmin) recursive doCompression now pid
      hagrees
  · intro hmin h h' t ht
    obtain ⟨f, hf, hdone⟩ := reaches_agreed hclient hserver recursive doCompression now pid h h'
    refine ⟨f, _, _, hf.of_done hdone ht, hdone, ?_⟩
    simp only [agreed, hmin, decide_true]
    exact ⟨rfl, rfl, rfl, rfl, carriesAll_same true, carriesAll_same true⟩

theorem handshakeAgrees_current :
  HandshakeAgrees noHost noHost 31 31 true true 1700000000 4711 ↔ 30 ≤ min 31 31
  := handshakeAgrees_iff (by decide) (by decide) true true 1700000000 4711

/-- An older client. -/
theorem not_handshakeAgrees_older :
  ¬ HandshakeAgrees noHost noHost 29 31 true true 1700000000 4711
  := not_handshakeAgrees (by decide) (by decide) (by decide) true true 1700000000 4711

end Duplex
