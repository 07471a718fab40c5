import RsyncRs.Delta.DeflateReader
import RsyncRs.Delta.StoredFlate
import RsyncRs.Pipeline.Receiver
import RsyncRs.Pipeline.Request

/-!
# Skipped transfers

What the sender replies when it cannot send a file is read by the receiver as an empty file
with a checksum of zeros, as long as tokens are not deflated. A deflated stream ends with one
byte where the sender writes four, and the three bytes that are left are taken for what comes
next.
-/

variable {H : Type}

namespace Sender

variable {answer : H → (x : FsCall) → Option (FsReply x × H)} {closed : Bool}

/-- The numbers of a request that has been read are in range. -/
theorem inRange_of_readRequest
    {protocol : ℕ} {rx : NdxState} {w w' : Endpoint H UInt8} {req : Request}
    (h : Proc.Returns answer closed (readRequest protocol rx) w (some req) w') :
  req.head.InRange ∧ req.iflags < 65536 ∧ (protocol < 29 → req.iflags = itemTransfer)
  := by
  obtain ⟨⟨ndx, rx'⟩, w₁, -, h⟩ := h.bind_inv
  dsimp only at h
  by_cases hd : ndx = ndxDone
  · rw [if_pos hd] at h
    cases (Prog.Ends.of_ret h).1
  rw [if_neg hd] at h
  obtain ⟨iflags, w₂, hiflags, h⟩ := h.bind_inv
  obtain ⟨fields, w₃, -, h⟩ := h.bind_inv
  by_cases ht : iflags &&& itemTransfer = 0
  · rw [if_pos ht] at h
    cases (Prog.Ends.of_ret h).1
  rw [if_neg ht] at h
  obtain ⟨head, w₄, hhead, h⟩ := h.bind_inv
  obtain ⟨sums, w₅, -, h⟩ := h.bind_inv
  obtain ⟨he, -⟩ := Prog.Ends.of_ret h
  cases he
  apply And.intro (inRange_of_readSumHead hhead) (iflags_of_readIflags hiflags)

/-- A request with the flags of a receiver is echoed without optional fields. -/
theorem encodeItemFields_eq_nil
    {iflags : ℕ} (hb : iflags &&& itemBasisTypeFollows = 0) (hx : iflags &&& itemXnameFollows = 0)
    (fields : ItemFields) :
  encodeItemFields iflags fields = []
  := by
  rw [encodeItemFields, if_neg (not_not.mpr hb), if_neg (not_not.mpr hx), List.append_nil]

/-- The name of a request in which none is announced is empty. -/
theorem xname_of_readRequest
    {protocol : ℕ} {rx : NdxState} {w w' : Endpoint H UInt8} {req : Request}
    (h : Proc.Returns answer closed (readRequest protocol rx) w (some req) w')
    (hx : req.iflags &&& itemXnameFollows = 0) :
  req.fields.xname = []
  := by
  obtain ⟨⟨ndx, rx'⟩, w₁, -, h⟩ := h.bind_inv
  dsimp only at h
  by_cases hd : ndx = ndxDone
  · rw [if_pos hd] at h
    cases (Prog.Ends.of_ret h).1
  rw [if_neg hd] at h
  obtain ⟨iflags, w₂, -, h⟩ := h.bind_inv
  obtain ⟨fields, w₃, hfields, h⟩ := h.bind_inv
  by_cases ht : iflags &&& itemTransfer = 0
  · rw [if_pos ht] at h
    cases (Prog.Ends.of_ret h).1
  rw [if_neg ht] at h
  obtain ⟨head, w₄, -, h⟩ := h.bind_inv
  obtain ⟨sums, w₅, -, h⟩ := h.bind_inv
  obtain ⟨he, -⟩ := Prog.Ends.of_ret h
  cases he
  apply xname_of_readItemFields hx hfields

end Sender

namespace Receiver

variable {answer : H → (x : FsCall) → Option (FsReply x × H)} {F : Flate}

/-! ### Empty files -/

/-- Plain tokens of an empty file. -/
theorem reads_readNewData_plain
    (F : Flate) (basis : List UInt8) (head : SumHead) :
  Proc.Reads answer (readNewData F false basis head) (leBytes 4 0) []
  := by
  rw [readNewData, if_neg (by decide)]
  apply Proc.Reads.bind_nil (TokenStream.reads TokenStream.nil)
  apply Proc.reads_pure

/-- Deflated tokens of an empty file. -/
theorem reads_readNewData_deflated
    (F : Flate) (basis : List UInt8) (head : SumHead) :
  Proc.Reads answer (readNewData F true basis head) [endFlag] []
  := by
  have htoken : Proc.Reads answer
      ((DeflatedTokenReader.new F).readToken : Session FsReply _) [endFlag]
      (none, { DeflatedTokenReader.new F with state := .init, rxToken := 0 }) := by
    rw [← List.nil_append [endFlag]]
    let idle : DeflatedTokenReader F := { DeflatedTokenReader.new F with state := .idle }
    have hstart : Proc.Reads answer ((DeflatedTokenReader.new F).step : Session FsReply _) []
        (.inl idle) := Proc.reads_pure _
    apply Proc.reads_loop_again hstart
    · apply Proc.reads_loop_done
      have hidle : idle.state = .idle ∨ idle.state = .inflated := .inl rfl
      have hflag : idle.savedFlag.toList ++ [endFlag] = endFlag :: [] := rfl
      obtain ⟨pre, hpre, hstep⟩ := DeflatedTokenReader.consumes_step answer hidle hflag
      rw [hpre]
      apply hstep.reads
      apply DeflatedTokenReader.reads_handleFlag rfl (by decide)
      apply DeflatedTokenReader.reads_decodeFlag_eof
  rw [readNewData, if_pos rfl]
  apply Proc.reads_loop_done
  apply htoken.bind_nil
  apply Proc.reads_pure

/-! ### Skipped transfers -/

/-- The reply that the receiver takes a skipped transfer for. -/
def emptyReply (ndx : ℤ) (iflags : ℕ) (head : SumHead) : FileReply :=
  { echoNdx := ndx, echoIflags := iflags, echoHead := head, newData := [],
    fileSum := List.replicate 16 0 }

/-- What precedes the tokens of a reply, the tokens of an empty file, and a checksum of
zeros. -/
theorem reads_readReply_empty
    {args : ReceiverArgs}
    (hct : args.csumType = strongToCsumType (ChecksumType.forProtocol args.protocol))
    (rx : NdxState) (basis : List UInt8) {ndx : ℤ} (h₁ : -2147483648 < ndx)
    (h₂ : ndx < 2147483648) {iflags : ℕ} (hi : iflags < 65536)
    (hp : args.protocol < 29 → iflags = itemTransfer) {head : SumHead} (hhead : head.InRange)
    {toks : List UInt8}
    (htoks : Proc.Reads answer (readNewData F args.useZlib basis head) toks []) :
  Proc.Reads answer (readReply F args rx basis)
    ((encodeIndex args.protocol rx ndx).1 ++ (encodeIflags args.protocol iflags ++
      (encodeSumHead head ++ (toks ++ List.replicate 16 0))))
    (emptyReply ndx iflags head, (encodeIndex args.protocol rx ndx).2)
  := by
  apply (reads_readIndex _ _ h₁ h₂).bind
  apply (reads_readIflags _ hi hp).bind
  apply (reads_readSumHead hhead).bind
  apply htoks.bind
  have hlen : (csumTypeToChecksumType args.csumType).digestLen = 16 := by
    rw [hct, digestLen_forProtocol]
  rw [hlen]
  apply (reads_readBytes (List.replicate 16 0) List.length_replicate).map

/-- The receiver reads what the sender writes for a skipped transfer as an empty file, and
reads all of it, exactly when tokens are not deflated. -/
theorem reads_skippedXfer_iff
    (F : Flate) (h : H) (args : ReceiverArgs)
    (hct : args.csumType = strongToCsumType (ChecksumType.forProtocol args.protocol))
    (rx : NdxState) (basis : List UInt8) {ndx : ℤ} (h₁ : -2147483648 < ndx)
    (h₂ : ndx < 2147483648) {iflags : ℕ} (hi : iflags < 65536)
    (hp : args.protocol < 29 → iflags = itemTransfer) {head : SumHead} (hhead : head.InRange) :
  Proc.Reads answer (readReply F args rx basis)
      ((encodeIndex args.protocol rx ndx).1 ++ (encodeIflags args.protocol iflags ++
        Sender.skippedXfer head))
      (emptyReply ndx iflags head, (encodeIndex args.protocol rx ndx).2) ↔
    args.useZlib = false
  := by
  cases hz : args.useZlib with
  | false =>
      apply iff_of_true _ rfl
      apply reads_readReply_empty hct rx basis h₁ h₂ hi hp hhead
      rw [hz]
      apply reads_readNewData_plain
  | true =>
      apply iff_of_false _ (by decide)
      intro hreads
      -- the stream ends with the first of the four bytes
      have htoks : Proc.Reads answer (readNewData F args.useZlib basis head) [endFlag] [] := by
        rw [hz]
        apply reads_readNewData_deflated
      have hshort := reads_readReply_empty hct rx basis h₁ h₂ hi hp hhead htoks
      have hwire : leBytes 4 0 ++ List.replicate 16 0 =
          ([endFlag] ++ List.replicate 16 0) ++ [0, 0, 0] := rfl
      rw [Sender.skippedXfer, hwire, ← List.append_assoc (encodeSumHead _),
        ← List.append_assoc (encodeIflags _ _), ← List.append_assoc] at hreads
      have hrest := hshort.eq_nil h hreads
      cases hrest

/-- A request that cannot be served is answered in one round by an echo and what stands for
the file. -/
theorem returns_round_skipped
    {answer : H → (x : FsCall) → Option (FsReply x × H)} {closed : Bool} (dig : Digests)
    (F : Flate) (args : SenderArgs) (s : Sender) {w v : Endpoint H UInt8} {req : Sender.Request}
    (hreq : Proc.Returns answer closed (Sender.readRequest args.protocol s.rx) w (some req) v)
    (hflags : req.iflags &&& itemBasisTypeFollows = 0 ∧ req.iflags &&& itemXnameFollows = 0)
    (hsend : Sender.Unsendable answer args w.host req.ndx) :
  ∃ s' w', Proc.Returns answer closed (Sender.round dig F args s) w (.inl s') w' ∧
    w'.buffer = w.buffer ++ ((encodeIndex args.protocol s.tx req.ndx).1 ++
      (encodeIflags args.protocol req.iflags ++ Sender.skippedXfer req.head)) ∧
    w'.input = v.input ∧ s'.tx = (encodeIndex args.protocol s.tx req.ndx).2
  := by
  have hx : req.fields.xname.length ≤ 0x7FFF := by
    rw [Sender.xname_of_readRequest hreq hflags.2]
    apply Nat.zero_le
  obtain ⟨rx, sums, hround⟩ := Sender.returns_round dig F hreq hx
  obtain ⟨h', hskip⟩ := Sender.returns_sendFile_of_unsendable closed dig F
    { s with rx := rx, tx := (encodeIndex args.protocol s.tx req.ndx).2 } req.head sums
    { w with input := v.input,
             buffer := w.buffer ++ Sender.encodeEcho args.protocol s.tx req.ndx req.iflags
               req.fields }
    hsend
  refine ⟨_, _, hround _ _ hskip, ?_, rfl, rfl⟩
  simp only [Sender.encodeEcho, Sender.encodeItemFields_eq_nil hflags.1 hflags.2,
    List.append_nil, List.append_assoc]

/-- The receiver reads the reply to a request that cannot be served as one empty transfer,
and reads all of it, exactly when tokens are not deflated. -/
theorem skipped_transfer_aligned_iff
    (answer answer' : H → (x : FsCall) → Option (FsReply x × H)) (closed : Bool)
    (dig : Digests) (F : Flate)
    (sargs : SenderArgs) (rargs : ReceiverArgs) (hprotocol : rargs.protocol = sargs.protocol)
    (hzlib : rargs.useZlib = sargs.useZlib)
    (hct : rargs.csumType = strongToCsumType (ChecksumType.forProtocol rargs.protocol))
    (s : Sender) (w v : Endpoint H UInt8) (req : Sender.Request) (basis : List UInt8)
    (hreq : Proc.Returns answer closed (Sender.readRequest sargs.protocol s.rx) w (some req) v)
    (hflags : req.iflags &&& itemBasisTypeFollows = 0 ∧ req.iflags &&& itemXnameFollows = 0)
    (hndx : -2147483648 < req.ndx ∧ req.ndx < 2147483648)
    (hsend : Sender.Unsendable answer sargs w.host req.ndx) :
  ∃ reply s' w', Proc.Returns answer closed (Sender.round dig F sargs s) w (.inl s') w' ∧
    w'.buffer = w.buffer ++ reply ∧ w'.input = v.input ∧
    (Proc.Reads answer' (readReply F rargs s.tx basis) reply
        (emptyReply req.ndx req.iflags req.head, s'.tx) ↔ sargs.useZlib = false)
  := by
  obtain ⟨hhead, hi, hp⟩ := Sender.inRange_of_readRequest hreq
  obtain ⟨s', w', hround, hbuffer, hinput, htx⟩ := returns_round_skipped dig F sargs s hreq
    hflags hsend
  refine ⟨_, s', w', hround, hbuffer, hinput, ?_⟩
  rw [htx, ← hprotocol, ← hzlib]
  rw [← hprotocol] at hp
  apply reads_skippedXfer_iff F w.host rargs hct s.tx basis hndx.1 hndx.2 hi hp hhead

/-- A sender with an empty file list. -/
def emptySender (useZlib : Bool) : SenderArgs :=
  { flist := {}, baseDir := [], protocol := 31, checksumSeed := 0, useZlib := useZlib }

/-- A receiver at the other end of an empty sender. -/
def emptyReceiver (useZlib : Bool) : ReceiverArgs :=
  { flist := {}, destDir := [], csumType := .md5, protocol := 31, checksumSeed := 0,
    useZlib := useZlib }

/-- An endpoint without files to which the file `0` has been requested. -/
def requested : Endpoint Unit UInt8 :=
  { host := (), input := Sender.encodeRequest 31 {} 0 ⟨0, 0, 0, 0⟩ [], buffer := [], sent := [] }

theorem returns_readRequest_requested :
  Proc.Returns (fun _ _ => none : Unit → (x : FsCall) → Option (FsReply x × Unit)) false
    (Sender.readRequest 31 {}) requested
    (some { ndx := 0, iflags := itemTransfer, fields := {}, head := ⟨0, 0, 0, 0⟩ })
    { requested with input := [] }
  := by
  apply Sender.reads_readRequest 31 {} (by decide) (by decide) (by decide) _ _ false requested
    [] (List.append_nil _).symm
  · constructor <;> decide
  · apply Proc.reads_pure

theorem skipped_transfer_aligned_requested :
  ∃ reply s' w', Proc.Returns (fun _ _ => none : Unit → (x : FsCall) → Option (FsReply x × Unit))
      false (Sender.round digestsOfZeros StoredFlate.codec (emptySender false) {}) requested
      (.inl s') w' ∧
    w'.buffer = [] ++ reply ∧ w'.input = [] ∧
    (Proc.Reads (fun _ _ => none : Unit → (x : FsCall) → Option (FsReply x × Unit))
        (readReply StoredFlate.codec (emptyReceiver false) {} []) reply
        (emptyReply 0 itemTransfer ⟨0, 0, 0, 0⟩, s'.tx) ↔ false = false)
  := skipped_transfer_aligned_iff _ _ false digestsOfZeros StoredFlate.codec (emptySender false)
      (emptyReceiver false) rfl rfl rfl {} requested _ _ [] returns_readRequest_requested
      (by decide) (by decide) trivial

/-- With deflated tokens the reply is longer than what the receiver reads. -/
theorem skipped_transfer_not_aligned :
  ∃ reply s' w', Proc.Returns (fun _ _ => none : Unit → (x : FsCall) → Option (FsReply x × Unit))
      false (Sender.round digestsOfZeros StoredFlate.codec (emptySender true) {}) requested
      (.inl s') w' ∧
    w'.buffer = reply ∧ w'.input = [] ∧
    ¬ Proc.Reads (fun _ _ => none : Unit → (x : FsCall) → Option (FsReply x × Unit))
        (readReply StoredFlate.codec (emptyReceiver true) {} []) reply
        (emptyReply 0 itemTransfer ⟨0, 0, 0, 0⟩, s'.tx)
  := by
  obtain ⟨s', w', hround, hbuffer, hinput, htx⟩ := returns_round_skipped digestsOfZeros
    StoredFlate.codec (emptySender true) {} returns_readRequest_requested (by decide) trivial
  refine ⟨_, s', w', hround, hbuffer, hinput, ?_⟩
  rw [htx]
  intro hreads
  have hhead : SumHead.InRange ⟨0, 0, 0, 0⟩ := by constructor <;> decide
  have hiff := (reads_skippedXfer_iff StoredFlate.codec () (emptyReceiver true) rfl {} []
    (by decide) (by decide) (by decide) (fun _ => rfl) hhead).mp hreads
  cases hiff

end Receiver
