import RsyncRs.Pipeline.Copy
import RsyncRs.Pipeline.Request
import RsyncRs.Program.Triple

/-!
# A session of a sender and a receiver

The receiver asks the sender for the files that it needs, and the sender replies with tokens that
make them. Over two queues, whatever the timing, the two do together what the receiver does alone
when the content of the files is at hand.
-/

open Duplex

variable {X : Type} {Reply : X → Type} {H H' ε' α β : Type} {F : Flate} {dig : Digests}

/-! ### Tokens of a file -/

/-- Pieces that cover the data and whose blocks are faithful are carried by tokens. -/
theorem exists_tokens
    (answer : H → (x : X) → Option (Reply x × H)) (answer' : H' → (x : X) → Option (Reply x × H'))
    {basis data : List UInt8} {head : SumHead} {blength : ℕ} {ops : List DeltaOp}
    (hcov : Covers (Faithful basis data head blength) blength data.length 0 ops)
    (hlen : data.length < 4294967296) :
  ∃ wire toks, Proc.Writes answer (sendOps data ops : Session Reply Unit) wire () ∧
    Proc.Reads answer' (TokenReader.readTokens : Session Reply _) wire toks ∧
    applyDelta basis head toks = .ok data
  := by
  have hruns : ∀ r ∈ literalRuns blength data.length 0 ops, r < 4294967296 := by
    intro r hr
    exact (literalRuns_le hcov r hr).trans_lt hlen
  obtain ⟨pieces, hp, hsend, happly⟩ := applyDelta_pieces (le_refl 0) hcov hruns
  obtain ⟨wire₁, toks₁, buf, hw₁, hs₁, hi₁, -, hb⟩ :=
    writes_forEach_send answer (by decide : [].length < chunkSize) hsend
  obtain ⟨wire₂, toks₂, hw₂, hs₂, hi₂, -⟩ := writes_flushLiterals answer hb
  refine ⟨wire₁ ++ (wire₂ ++ leBytes 4 0), toks₁ ++ toks₂, ?_, ?_, ?_⟩
  · rw [sendOps_eq hp]
    exact hw₁.bind (hw₂.bind (writes_writeInt 0))
  · rw [← List.append_assoc]
    exact (hs₁.append hs₂).reads
  · have hitems : tokenItems (toks₁ ++ toks₂) = tokenItems pieces := by
      rw [tokenItems_append, hi₂, hi₁]
      rfl
    rw [applyDelta_eq, hitems, ← applyDelta_eq, happly, List.drop_zero]

/-! ### The basis of a file -/

namespace Receiver

variable {args : ReceiverArgs} {sargs : SenderArgs}

/-- The basis that a receiver makes of what it reads. -/
def basisOf (dig : Digests) (args : ReceiverArgs) : Except String (List UInt8) → Basis
  | .ok data =>
    let head := makeSumHead data.length (csumSumLen args.csumType)
    { data, head,
      sums := blockSums dig data head (csumTypeToChecksumType args.csumType)
        (asU32 args.checksumSeed) false }
  | .error _ => { data := [], head := ⟨0, 0, csumSumLen args.csumType, 0⟩, sums := [] }

/-- The blocks of the basis can be numbered, and checksums tell them from what is in the file. -/
structure Comparable (dig : Digests) (args : ReceiverArgs) (basis data : List UInt8) : Prop where
  count : (basis.length + blockLenForFile basis.length - 1) /
    blockLenForFile basis.length < 2147483648
  distinct : NoCollision dig (csumTypeToChecksumType args.csumType) (asU32 args.checksumSeed)
    basis data (makeSumHead basis.length (csumSumLen args.csumType))

/-- The checksums of a basis are read as they were written. -/
theorem reads_basisOf
    {answer : H → (x : X) → Option (Reply x × H)} (r : Except String (List UInt8))
    {data : List UInt8} (hr : ∀ basis, r = .ok basis → Comparable dig args basis data) :
  (basisOf dig args r).head.InRange ∧
    Proc.Reads answer (readSumBufs (basisOf dig args r).head : Session Reply _)
      (encodeSumBufs (basisOf dig args r).sums) (basisOf dig args r).sums
  := by
  cases r with
  | ok basis =>
      have htiles := tiles_makeSumHead basis.length (csumSumLen args.csumType) (hr basis rfl).count
      refine ⟨htiles.inside.inRange (asUsize_csumSumLen args.csumType).2.1, ?_⟩
      exact reads_blockSums dig htiles rfl _ false
  | error msg =>
      have hzero : IsI32 0 := by decide
      refine ⟨⟨hzero, hzero, (asUsize_csumSumLen args.csumType).2.1, hzero⟩, ?_⟩
      exact Proc.reads_pure []

/-- The data are found in the blocks of a basis and carried by tokens. -/
theorem exists_delta
    (answer : H → (x : X) → Option (Reply x × H)) (answer' : H' → (x : X) → Option (Reply x × H'))
    (r : Except String (List UInt8)) {data : List UInt8}
    (hr : ∀ basis, r = .ok basis → Comparable dig args basis data)
    (hlen : data.length < 4294967296) :
  ∃ ops wire toks,
    findMatchesSeeded dig data
      (BlockHashTable.build (basisOf dig args r).head (basisOf dig args r).sums)
      (asUsize (basisOf dig args r).head.s2length) (asU32 args.checksumSeed) = .ok ops ∧
    Proc.Writes answer (sendOps data ops : Session Reply Unit) wire () ∧
    Proc.Reads answer' (TokenReader.readTokens : Session Reply _) wire toks ∧
    applyDelta (basisOf dig args r).data (basisOf dig args r).head toks = .ok data
  := by
  cases r with
  | ok basis =>
      obtain ⟨hcount, hcoll⟩ := hr basis rfl
      have htiles := tiles_makeSumHead basis.length (csumSumLen args.csumType) hcount
      have h₁ := htiles.blength_ge
      have h₂ := htiles.blength_le
      have hb : asUsize (makeSumHead basis.length (csumSumLen args.csumType)).blength =
          (makeSumHead basis.length (csumSumLen args.csumType)).blength.toNat :=
        asUsize_of_nonneg (by omega) (by omega)
      have hs2 : (makeSumHead basis.length (csumSumLen args.csumType)).s2length =
          csumSumLen args.csumType := rfl
      obtain ⟨ops, hops, hcov⟩ := findMatchesSeeded_spec dig data
        (makeSumHead basis.length (csumSumLen args.csumType))
        (length_sum2_blockSums dig basis hs2 (asU32 args.checksumSeed) false)
        (asUsize (csumSumLen args.csumType)) (asU32 args.checksumSeed)
      rw [hb] at hcov
      have hfaith := hcov.mono fun idx pos hpos ⟨s, hs⟩ =>
        faithful_of_sameSums htiles rfl hcoll hpos hs
      obtain ⟨wire, toks, hwrites, hreads, happly⟩ := exists_tokens answer answer' hfaith hlen
      exact ⟨ops, wire, toks, hops, hwrites, hreads, happly⟩
  | error msg =>
      have hcov : Covers (Faithful [] data ⟨0, 0, csumSumLen args.csumType, 0⟩ 0) 0 data.length 0
          (literalUpTo 0 data.length) := covers_literal_end (Nat.zero_le _)
      obtain ⟨wire, toks, hwrites, hreads, happly⟩ := exists_tokens answer answer' hcov hlen
      exact ⟨_, wire, toks, rfl, hwrites, hreads, happly⟩

end Receiver

/-! ### Requests and replies -/

namespace Sender

variable {answer : H → (x : FsCall) → Option (FsReply x × H)} {closed : Bool} {sargs : SenderArgs}

/-- What the sender replies when it sends the data of a file, up to the checksum of the file. -/
def encodeReply (protocol : ℕ) (tx : NdxState) (ndx : ℤ) (head : SumHead)
    (wire sum : List UInt8) : List UInt8 :=
  (encodeIndex protocol tx ndx).1 ++ (encodeIflags protocol itemTransfer ++
    (encodeSumHead head ++ (wire ++ sum)))

/-- The checksum of a file that is sent after its tokens. -/
def fileSum (dig : Digests) (data : List UInt8) : List UInt8 :=
  (dig.compute data .md5 0 false).take 16

theorem length_fileSum
    (dig : Digests) (data : List UInt8) :
  (fileSum dig data).length = 16
  := by
  have h : 16 ≤ (dig.compute data .md5 0 false).length :=
    dig.digestLen_le_length_compute data .md5 0 false
  rw [fileSum, List.length_take, min_eq_left h]

/-- The state of a sender after it has sent the data of a file. -/
def replied (protocol : ℕ) (s : Sender) (ndx : ℤ) (data : List UInt8) : Sender :=
  ({ s with rx := (encodeIndex protocol s.rx ndx).2,
            tx := (encodeIndex protocol s.tx ndx).2 } : Sender).sent data

/-- The data of a file are sent after what is in the buffer. -/
theorem returns_sendData_tokens
    (F : Flate) (hzlib : sargs.useZlib = false) {head : SumHead} {sums : List SumBuf}
    {data : List UInt8} {ops : List DeltaOp} {wire : List UInt8}
    (hops : findMatchesSeeded dig data (BlockHashTable.build head sums) (asUsize head.s2length)
      (asU32 sargs.checksumSeed) = .ok ops)
    (hwrites : Proc.Writes answer (sendOps data ops : Session FsReply Unit) wire ())
    (w : Endpoint H UInt8) :
  Proc.Returns answer closed (sendData dig F sargs head sums data) w ()
    { w with buffer := [],
             sent := w.sent ++ (w.buffer ++ (encodeSumHead head ++ (wire ++ fileSum dig data))) }
  := by
  unfold sendData
  rw [hops]
  apply Proc.Returns.bind (Proc.returns_pure ops w)
  apply Proc.Returns.bind (writes_writeSumHead head closed w)
  have htokens : (sendTokens F sargs.useZlib data (asUsize head.blength) ops :
      Session FsReply Unit) = sendOps data ops := by
    rw [sendTokens, hzlib, if_neg (by decide)]
  rw [htokens]
  apply Proc.Returns.bind (hwrites closed _)
  apply Proc.Returns.bind (writes_writeAll (fileSum dig data) closed _)
  have hflush : Proc.Returns answer closed (flushOk : Session FsReply Unit)
      { w with buffer := w.buffer ++ encodeSumHead head ++ wire ++ fileSum dig data } () _ :=
    returns_flushOk closed _
  simpa only [List.append_assoc] using hflush

/-- A request is answered by a reply. -/
theorem returns_round_reply
    (F : Flate) (hzlib : sargs.useZlib = false) {s : Sender} {ndx : ℤ} (h₀ : 0 ≤ ndx)
    (h₁ : ndx < 2147483648) {head : SumHead} {sums : List SumBuf} (hhead : head.InRange)
    (hsums : Proc.Reads answer (readSumBufs head : Session FsReply _) (encodeSumBufs sums) sums)
    {fi : FileInfo} (hfi : sargs.flist.getByNdx ndx = some fi) (hregular : fi.isRegular = true)
    {data : List UInt8} {h k : H}
    (hread : answer h (.readFile (sargs.baseDir.join fi.path)) = some (.ok data, k))
    {ops : List DeltaOp} {wire : List UInt8}
    (hops : findMatchesSeeded dig data (BlockHashTable.build head sums) (asUsize head.s2length)
      (asU32 sargs.checksumSeed) = .ok ops)
    (hwrites : Proc.Writes answer (sendOps data ops : Session FsReply Unit) wire ()) :
  Proc.Returns answer closed (round dig F sargs s)
    ⟨h, encodeRequest sargs.protocol s.rx ndx head sums, [], []⟩
    (.inl (replied sargs.protocol s ndx data))
    ⟨k, [], [], encodeReply sargs.protocol s.tx ndx head wire (fileSum dig data)⟩
  := by
  have hdone : ndx ≠ ndxDone := by
    intro hndx
    rw [hndx] at h₀
    exact absurd h₀ (by decide)
  have hflags : itemTransfer < 65536 := by decide
  apply Proc.Returns.bind (reads_readIndex sargs.protocol s.rx (by omega) h₁ closed _ _ rfl)
  dsimp only
  rw [if_neg hdone]
  refine Proc.Returns.bind ?_ (Proc.returns_pure _ _)
  apply Proc.Returns.bind (reads_readIflags sargs.protocol hflags (fun _ => rfl) closed _ _ rfl)
  apply Proc.Returns.bind (reads_readItemFields closed _ _ rfl)
  apply Proc.Returns.bind (writes_writeIndex sargs.protocol s.tx ndx closed _)
  apply Proc.Returns.bind (writes_writeIflags sargs.protocol itemTransfer closed _)
  apply Proc.Returns.bind (writes_writeItemFields itemTransfer (by decide) closed _)
  rw [if_neg (by decide)]
  apply Proc.Returns.bind (reads_readSumHead hhead closed _ _ rfl)
  apply Proc.Returns.bind (hsums closed _ [] (List.append_nil _).symm)
  unfold sendFile
  rw [hfi]
  dsimp only
  rw [if_neg (by simpa using hregular)]
  apply Proc.Returns.bind (Proc.returns_host hread)
  apply Proc.Returns.bind (returns_sendData_tokens F hzlib hops hwrites _)
  have hfields : encodeItemFields itemTransfer {} = [] := by decide
  simp only [hfields, List.append_nil, List.nil_append, List.append_assoc]
  exact Proc.returns_pure _ _

end Sender

namespace Receiver

variable {answer : H → (x : FsCall) → Option (FsReply x × H)}
  {answer' : H' → (x : FsCall) → Option (FsReply x × H')} {closed : Bool} {args : ReceiverArgs}
  {sargs : SenderArgs}

/-- The file at the destination is read and requested. -/
theorem returns_requestFile
    (tx : NdxState) (ndx : ℤ) {dest : FsPath} {h k : H} {r : Except String (List UInt8)}
    (hread : answer h (.readFile dest) = some (r, k)) {data : List UInt8}
    (hr : ∀ basis, r = .ok basis → Comparable dig args basis data) :
  Proc.Returns answer closed (requestFile dig args tx ndx dest) ⟨h, [], [], []⟩
    ((encodeIndex args.protocol tx ndx).2, basisOf dig args r)
    ⟨k, [], [], Sender.encodeRequest args.protocol tx ndx (basisOf dig args r).head
      (basisOf dig args r).sums⟩
  := by
  have hbasis : ∀ w : Endpoint H UInt8, w.host = h →
      Proc.Returns answer closed (readBasis dig args dest) w (basisOf dig args r)
        { w with host := k } := by
    rintro w rfl
    apply Proc.Returns.bind (Proc.returns_host hread)
    cases r with
    | ok basis =>
        have htiles := tiles_makeSumHead basis.length (csumSumLen args.csumType)
          (hr basis rfl).count
        dsimp only
        rw [computeSumBufs_eq dig htiles]
        exact Proc.Returns.bind (Proc.returns_pure _ _) (Proc.returns_pure _ _)
    | error msg => exact Proc.returns_pure _ _
  apply Proc.Returns.bind (writes_writeIndex args.protocol tx ndx closed _)
  apply Proc.Returns.bind (writes_writeIflags args.protocol itemTransfer closed _)
  apply Proc.Returns.bind (hbasis _ rfl)
  apply Proc.Returns.bind (writes_writeSumHead _ closed _)
  apply Proc.Returns.bind (writes_writeSumBufs _ closed _)
  apply Proc.Returns.bind (returns_flushOk closed _)
  simp only [List.nil_append, List.append_assoc]
  exact Proc.returns_pure _ _

/-- What a receiver reads of a reply. -/
def replyOf (ndx : ℤ) (head : SumHead) (data sum : List UInt8) : FileReply where
  echoNdx := ndx
  echoIflags := itemTransfer
  echoHead := head
  newData := data
  fileSum := sum

/-- A reply is read as it was written. -/
theorem reads_readReply
    (F : Flate) (hzlib : args.useZlib = false)
    (hsum : (csumTypeToChecksumType args.csumType).digestLen = 16) (rx : NdxState) {ndx : ℤ}
    (h₀ : -2147483648 < ndx) (h₁ : ndx < 2147483648) {head : SumHead} (hhead : head.InRange)
    {basis data wire sum : List UInt8} {toks : List Token}
    (htoks : Proc.Reads answer (TokenReader.readTokens : Session FsReply _) wire toks)
    (happly : applyDelta basis head toks = .ok data) (hlen : sum.length = 16) :
  Proc.Reads answer (readReply F args rx basis)
    (Sender.encodeReply args.protocol rx ndx head wire sum)
    (replyOf ndx head data sum, (encodeIndex args.protocol rx ndx).2)
  := by
  have hflags : itemTransfer < 65536 := by decide
  have hdata : Proc.Reads answer (readNewData F args.useZlib basis head) wire data := by
    rw [readNewData, hzlib, if_neg (by decide)]
    apply htoks.bind_nil
    rw [happly]
    exact Proc.reads_pure data
  apply (reads_readIndex args.protocol rx h₀ h₁).bind
  apply (reads_readIflags args.protocol hflags fun _ => rfl).bind
  apply (reads_readSumHead hhead).bind
  apply hdata.bind
  exact (reads_readBytes sum (hlen.trans hsum.symm)).map _

end Receiver

/-! ### The files of the list -/

/-- When `ndx` is requested, the sender finds a file with the content `data`. While it is asked for
files, `J` is true of its host. -/
def Sender.Serves (answer : H → (x : FsCall) → Option (FsReply x × H)) (sargs : SenderArgs)
    (J : H → Prop) (ndx : ℤ) (data : List UInt8) : Prop :=
  ∃ fi, sargs.flist.getByNdx ndx = some fi ∧ fi.isRegular = true ∧ data.length < 4294967296 ∧
    ∀ h, J h → ∃ k, J k ∧ answer h (.readFile (sargs.baseDir.join fi.path)) = some (.ok data, k)

namespace Receiver

/-- Both ends have agreed on how they talk. -/
structure Agrees (args : ReceiverArgs) (sargs : SenderArgs) : Prop where
  protocol : sargs.protocol = args.protocol
  seed : sargs.checksumSeed = args.checksumSeed
  senderPlain : sargs.useZlib = false
  receiverPlain : args.useZlib = false
  sum : (csumTypeToChecksumType args.csumType).digestLen = 16

/-- The codings of indices at both ends are in step, as much has been sent as has been installed,
and no phase has ended. -/
structure InStep (s : Receiver) (ss : Sender) : Prop where
  requests : ss.rx = s.tx
  replies : ss.tx = s.rx
  phase : ss.phase = 0
  written : ss.stats.totalWritten = s.stats.totalWritten
  counted : IsI64 ss.stats.totalWritten
  others : ss.stats.totalRead = 0 ∧ ss.stats.totalSize = 0

theorem isI64_wrapI64
    (x : ℤ) :
  IsI64 (wrapI64 x)
  := by
  unfold IsI64 wrapI64
  omega

theorem inStep_start :
  InStep {} {}
  := ⟨rfl, rfl, rfl, rfl, by decide, rfl, rfl⟩

section Served

variable {answer : H → (x : FsCall) → Option (FsReply x × H)}
  {answer' : H' → (x : FsCall) → Option (FsReply x × H')} {args : ReceiverArgs}
  {sargs : SenderArgs} {J : H → Prop} {s : Receiver} {ss : Sender} {h : H} {h' k' : H'}
  {stats : Stats}

/-- With the sender at the other end, the procedure of the receiver comes to its end, where the
counters are `stats` and the host is in the state `k'`. Both ends are in step again. -/
def Served (answer : H → (x : FsCall) → Option (FsReply x × H))
    (answer' : H' → (x : FsCall) → Option (FsReply x × H')) (dig : Digests) (F : Flate)
    (sargs : SenderArgs) (J : H → Prop) (p : Session FsReply Receiver) (ss : Sender) (h : H)
    (h' : H') (stats : Stats) (k' : H') : Prop :=
  ∃ s₁ ss₁ k, s₁.stats = stats ∧ InStep s₁ ss₁ ∧ J k ∧
    ∀ {α β : Type} (f : Sender → Session FsReply α) (g : Receiver → Session FsReply β),
      Reaches answer answer'
        (talk (Proc.loop (Sender.round dig F sargs) ss >>= f) h (p >>= g) h')
        (talk (Proc.loop (Sender.round dig F sargs) ss₁ >>= f) k (g s₁) k')

/-- Nothing is asked of the sender. -/
theorem Served.pure
    (hstep : InStep s ss) (hh : J h) :
  Served answer answer' dig F sargs J (Pure.pure s) ss h h' s.stats h'
  := ⟨s, ss, h, rfl, hstep, hh, fun f g => by rw [pure_bind]; exact Relation.ReflTransGen.refl⟩

/-- The receiver goes on by itself before. -/
theorem Served.bind_host
    {γ : Type} {p : Session FsReply γ} {c : γ} {f : γ → Session FsReply Receiver} {h₁ : H'}
    (hp : Proc.Returns answer' false p ⟨h', [], [], []⟩ c ⟨h₁, [], [], []⟩)
    (hf : Served answer answer' dig F sargs J (f c) ss h h₁ stats k') :
  Served answer answer' dig F sargs J (p >>= f) ss h h' stats k'
  := by
  obtain ⟨s₁, ss₁, k, hstats, hstep, hk, hreach⟩ := hf
  refine ⟨s₁, ss₁, k, hstats, hstep, hk, fun f' g => ?_⟩
  rw [bind_assoc]
  exact (reaches_talk_right hp).trans (hreach f' g)

/-- Read the reply to a request and install what it makes. -/
def takeReply (F : Flate) (args : ReceiverArgs) (s : Receiver) (fi : FileInfo) (dest : FsPath)
    (request : NdxState × Basis) : Session FsReply Receiver := do
  let (reply, rx) ← readReply F args s.rx request.2.data
  install args fi dest reply.newData
  pure { rx := rx, tx := request.1, stats := installed s.stats reply.newData }

theorem transfer_eq
    (s : Receiver) (i : ℕ) (fi : FileInfo) (dest : FsPath) :
  transfer dig F args s i fi dest =
    requestFile dig args s.tx (ndxOf args i) dest >>= takeReply F args s fi dest
  := rfl

/-- A file is requested, sent and installed. -/
theorem served_transfer
    (hagrees : Agrees args sargs) (hstep : InStep s ss) (hh : J h) {i : ℕ} {fi : FileInfo}
    {dest : FsPath} {data : List UInt8} (h₀ : 0 ≤ ndxOf args i)
    (hserves : Sender.Serves answer sargs J (ndxOf args i) data)
    (hcomparable : ∀ basis k, answer' h' (.readFile dest) = some (.ok basis, k) →
      Comparable dig args basis data)
    (hcopy : Proc.Returns answer' false (copyContent args s.stats fi dest data)
      ⟨h', [], [], []⟩ stats ⟨k', [], [], []⟩) :
  Served answer answer' dig F sargs J (transfer dig F args s i fi dest) ss h h' stats k'
  := by
  obtain ⟨r, w₁, hread, hcopy⟩ := hcopy.bind_inv
  obtain ⟨h₁, hanswer, rfl⟩ := hread.host_inv
  obtain ⟨u, w₂, hinstall, hcopy⟩ := hcopy.bind_inv
  obtain ⟨rfl, hw₂⟩ := hcopy.pure_inv
  rw [← hw₂] at hinstall
  have hr : ∀ basis, r = .ok basis → Comparable dig args basis data := by
    rintro basis rfl
    exact hcomparable basis h₁ hanswer
  obtain ⟨sfi, hfi, hregular, hlen, hopen⟩ := hserves
  obtain ⟨k, hk, hsource⟩ := hopen h hh
  obtain ⟨ops, wire, toks, hops, hwrites, htoks, happly⟩ :=
    exists_delta answer answer' r hr hlen
  have h₁' : ndxOf args i < 2147483648 := (isI32_wrapI32 _).2
  have hsums : (basisOf dig args r).head.InRange ∧
      Proc.Reads answer (readSumBufs (basisOf dig args r).head : Session FsReply _)
        (encodeSumBufs (basisOf dig args r).sums) (basisOf dig args r).sums := reads_basisOf r hr
  obtain ⟨hhead, hsums⟩ := hsums
  let s₁ : Receiver :=
    { rx := (encodeIndex args.protocol s.rx (ndxOf args i)).2
      tx := (encodeIndex args.protocol s.tx (ndxOf args i)).2
      stats := installed s.stats data }
  refine ⟨s₁, Sender.replied sargs.protocol ss (ndxOf args i) data, k, rfl, ?_, hk, fun f g => ?_⟩
  · constructor
    · rw [Sender.replied, Sender.sent, hagrees.protocol, hstep.requests]
    · rw [Sender.replied, Sender.sent, hagrees.protocol, hstep.replies]
    · exact hstep.phase
    · simp only [Sender.replied, Sender.sent, s₁, installed, hstep.written]
    · exact isI64_wrapI64 _
    · exact hstep.others
  -- the receiver asks, the sender replies, and the receiver installs the file
  let await : Session FsReply Receiver := takeReply F args s fi dest (s₁.tx, basisOf dig args r)
  have hask : Proc.Comes answer' (transfer dig F args s i fi dest >>= g) ⟨h', [], [], []⟩
      (await >>= g) ⟨h₁, [], [], Sender.encodeRequest args.protocol s.tx (ndxOf args i)
        (basisOf dig args r).head (basisOf dig args r).sums⟩ := by
    rw [transfer_eq]
    exact ((returns_requestFile s.tx (ndxOf args i) hanswer hr).comes _).bind g
  have hreply : Proc.Returns answer false (Sender.round dig F sargs ss)
      ⟨h, Sender.encodeRequest sargs.protocol ss.rx (ndxOf args i) (basisOf dig args r).head
        (basisOf dig args r).sums, [], []⟩ (.inl _)
      ⟨k, [], [], Sender.encodeReply sargs.protocol ss.tx (ndxOf args i) (basisOf dig args r).head
        wire (Sender.fileSum dig data)⟩ :=
    Sender.returns_round_reply F hagrees.senderPlain h₀ h₁' hhead hsums hfi hregular hsource
      (hagrees.seed ▸ hops) hwrites
  have hawait : Proc.Returns answer' false await
      ⟨h₁, Sender.encodeReply args.protocol s.rx (ndxOf args i) (basisOf dig args r).head wire
        (Sender.fileSum dig data), [], []⟩ s₁ ⟨k', [], [], []⟩ := by
    apply Proc.Returns.bind (reads_readReply F hagrees.receiverPlain hagrees.sum s.rx (by omega)
      h₁' hhead htoks happly (Sender.length_fileSum dig data) false _ []
      (List.append_nil _).symm)
    exact hinstall.bind (Proc.returns_pure _ _)
  apply reaches_talk_ask hask _ (hawait.comes g)
  apply Proc.Comes.bind
  apply Proc.comes_loop_again
  rw [← hagrees.protocol, ← hstep.requests, ← hstep.replies]
  exact hreply

/-- A copy of a file. -/
structure Copying where
  stats : Stats
  fi : FileInfo
  dest : FsPath
  data : List UInt8

/-- Each file that is copied is compared with what is at its place. -/
abbrev compares (answer' : H' → (x : FsCall) → Option (FsReply x × H')) (dig : Digests)
    (args : ReceiverArgs) : Watch UInt8 FsReply Error (Endpoint H' UInt8) where
  Index := Copying
  Result := fun _ => Stats
  step c := copyContent args c.stats c.fi c.dest c.data
  cond c w := ∀ basis k, answer' w.host (.readFile c.dest) = some (.ok basis, k) →
    Comparable dig args basis c.data

/-- What the receiver does by itself it does in the copy too. -/
theorem Served.alike
    {m : Watch UInt8 FsReply Error (Endpoint H' UInt8)} {γ : Type} {p : Session FsReply γ}
    (hp : Proc.OnlyHosts p) {f : γ → Session FsReply Receiver} {f' : γ → Session FsReply Stats}
    (hmeets : Proc.Meets m (Prog.Answers (Endpoint.answer answer' false)) (p >>= f')
      ⟨h', [], [], []⟩)
    (hcopy : Proc.Returns answer' false (p >>= f') ⟨h', [], [], []⟩ stats ⟨k', [], [], []⟩)
    (hf : ∀ c h₁, Proc.Meets m (Prog.Answers (Endpoint.answer answer' false)) (f' c)
        ⟨h₁, [], [], []⟩ →
      Proc.Returns answer' false (f' c) ⟨h₁, [], [], []⟩ stats ⟨k', [], [], []⟩ →
        Served answer answer' dig F sargs J (f c) ss h h₁ stats k') :
  Served answer answer' dig F sargs J (p >>= f) ss h h' stats k'
  := by
  obtain ⟨c, w, hc, hcopy⟩ := hcopy.bind_inv
  replace hmeets := hmeets.bind_right hc
  have hw : w = ⟨w.host, [], [], []⟩ := (hp.frame hc).1
  rw [hw] at hc hcopy hmeets
  exact (hf c w.host hmeets hcopy).bind_host hc

/-- Nothing is left to do in either. -/
theorem Served.done
    (hstep : InStep s ss) (hh : J h) {stats' : Stats} (hstats : s.stats = stats')
    (hcopy : Proc.Returns answer' false (Pure.pure stats' : Session FsReply Stats)
      ⟨h', [], [], []⟩ stats ⟨k', [], [], []⟩) :
  Served answer answer' dig F sargs J (Pure.pure s) ss h h' stats k'
  := by
  obtain ⟨rfl, hk⟩ := hcopy.pure_inv
  cases hk
  rw [← hstats]
  exact Served.pure hstep hh

/-- A regular file is received as it is copied. -/
theorem served_receiveRegular
    (hagrees : Agrees args sargs) (hstep : InStep s ss) (hh : J h) {i : ℕ} {fi : FileInfo}
    {dest : FsPath} {data : List UInt8} (h₀ : 0 ≤ ndxOf args i)
    (hserves : Sender.Serves answer sargs J (ndxOf args i) data)
    (hmeets : Proc.Meets (compares answer' dig args) (Prog.Answers (Endpoint.answer answer' false))
      (copyRegular args s.stats fi dest data) ⟨h', [], [], []⟩)
    (hcopy : Proc.Returns answer' false (copyRegular args s.stats fi dest data)
      ⟨h', [], [], []⟩ stats ⟨k', [], [], []⟩) :
  Served answer answer' dig F sargs J (receiveRegular dig F args s i fi dest) ss h h' stats k'
  := by
  apply Served.alike (onlyHosts_existsAlready args dest) hmeets hcopy
  intro b h₁ hmeets hcopy
  split
  · next hb =>
    rw [if_pos hb] at hcopy
    exact Served.done hstep hh rfl hcopy
  next hb =>
  rw [if_neg hb] at hmeets hcopy
  apply Served.alike (onlyHosts_destNewer args fi dest) hmeets hcopy
  intro b h₂ hmeets hcopy
  split
  · next hb =>
    rw [if_pos hb] at hcopy
    exact Served.done hstep hh rfl hcopy
  next hb =>
  rw [if_neg hb] at hmeets hcopy
  apply Served.alike (onlyHosts_linkFirst args fi dest _) hmeets hcopy
  intro b h₃ hmeets hcopy
  split
  · next hb =>
    rw [if_pos hb] at hcopy
    have hlinked : InStep { s with stats.xferredFiles := wrapI64 (s.stats.xferredFiles + 1) } ss :=
      { hstep with }
    exact Served.done hlinked hh rfl hcopy
  next hb =>
  rw [if_neg hb] at hmeets hcopy
  apply Served.alike (onlyHosts_needsTransfer args fi dest) hmeets hcopy
  intro b h₄ hmeets hcopy
  split
  · next hb =>
    rw [if_pos hb] at hmeets hcopy
    apply served_transfer hagrees hstep hh h₀ hserves ?_ hcopy
    exact hmeets ⟨s.stats, fi, dest, data⟩ _ (Prog.Visits.refl _ _)
  · next hb =>
    rw [if_neg hb] at hcopy
    exact Served.done hstep hh rfl hcopy

/-- The files of the list can be served. -/
def ServesAll (answer : H → (x : FsCall) → Option (FsReply x × H)) (sargs : SenderArgs)
    (J : H → Prop) (args : ReceiverArgs) (source : ℕ → List UInt8) : Prop :=
  ∀ e ∈ args.flist.files.zipIdx, mayRequest args e.1 = true →
    0 ≤ ndxOf args e.2 ∧ Sender.Serves answer sargs J (ndxOf args e.2) (source e.2)

/-- The files of a part of the list are received as they are copied. -/
theorem served_files
    (hagrees : Agrees args sargs) {source : ℕ → List UInt8} {entries : List (FileInfo × ℕ)}
    (hserves : ∀ e ∈ entries, mayRequest args e.1 = true →
      0 ≤ ndxOf args e.2 ∧ Sender.Serves answer sargs J (ndxOf args e.2) (source e.2))
    (hstep : InStep s ss) (hh : J h)
    (hmeets : Proc.Meets (compares answer' dig args) (Prog.Answers (Endpoint.answer answer' false))
      (Proc.forEach (copyEntry args source) s.stats entries) ⟨h', [], [], []⟩)
    (hcopy : Proc.Returns answer' false (Proc.forEach (copyEntry args source) s.stats entries)
      ⟨h', [], [], []⟩ stats ⟨k', [], [], []⟩) :
  Served answer answer' dig F sargs J (Proc.forEach (receiveFile dig F args) s entries) ss h h'
    stats k'
  := by
  induction entries generalizing s ss h h' with
  | nil => exact Served.done hstep hh rfl hcopy
  | cons e entries ih =>
      obtain ⟨stats₁, w, hentry, hrest⟩ := hcopy.bind_inv
      have hmeets₁ := hmeets.bind_left
      replace hmeets := hmeets.bind_right hentry
      have hw : w = ⟨w.host, [], [], []⟩ := ((onlyHosts_copyEntry args source _ e).frame hentry).1
      rw [hw] at hentry hrest hmeets
      have hserved : Served answer answer' dig F sargs J (receiveFile dig F args s e) ss h h'
          stats₁ w.host := by
        unfold copyEntry at hentry hmeets₁
        unfold receiveFile
        split
        · next hrequest =>
          rw [if_pos hrequest] at hentry hmeets₁
          obtain ⟨h₀, hserve⟩ := hserves e List.mem_cons_self hrequest
          exact served_receiveRegular hagrees hstep hh h₀ hserve hmeets₁ hentry
        · next hrequest =>
          rw [if_neg hrequest] at hentry
          exact Served.done hstep hh rfl hentry
      obtain ⟨s₁, ss₁, k, rfl, hstep₁, hk, hreach⟩ := hserved
      obtain ⟨s₂, ss₂, k₂, hstats, hstep₂, hk₂, hreach₂⟩ :=
        ih (fun e he => hserves e (List.mem_cons_of_mem _ he)) hstep₁ hk hmeets hrest
      refine ⟨s₂, ss₂, k₂, hstats, hstep₂, hk₂, fun f g => ?_⟩
      rw [Proc.forEach, bind_assoc]
      exact (hreach f _).trans (hreach₂ f g)

end Served

end Receiver
