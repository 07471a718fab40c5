import RsyncRs.Delta.DeflateToken
import RsyncRs.Fs.Call
import RsyncRs.Pipeline.Delta
import RsyncRs.Pipeline.Item

/-!
# Sender

The sender reads requests and answers each of them: it echoes what the request starts with,
reads the checksums of the receiver's file, and sends the tokens and the checksum of its own
file. The receiver ends each phase with a mark.
-/

variable {F : Flate}

/-- What a sender works on. -/
structure SenderArgs where
  /-- The files that may be requested. -/
  flist : FileList
  /-- The directory in which they are looked up. -/
  baseDir : FsPath
  /-- The version of the protocol. -/
  protocol : ℕ
  /-- The seed of the checksums of blocks. -/
  checksumSeed : ℤ
  /-- Tokens are deflated. -/
  useZlib : Bool
deriving DecidableEq, Repr

/-- State of a sender between two requests. -/
structure Sender where
  /-- Number of phases that have been ended. -/
  phase : ℕ := 0
  /-- The coding of indices read. -/
  rx : NdxState := {}
  /-- The coding of indices written. -/
  tx : NdxState := {}
  /-- Counters. -/
  stats : Stats := {}
deriving DecidableEq, Repr

namespace Sender

/-- Send what a receiver expects when the data of a file cannot be sent. -/
def sendSkippedXfer (head : SumHead) : Session FsReply Unit := do
  writeSumHead head
  writeInt 0
  writeAll (List.replicate 16 0)

/-- Send a piece of `data` as a deflated token. -/
def sendOpDeflated (data : List UInt8) (blen : ℕ) (tw : DeflatedTokenWriter F) :
    DeltaOp → Session FsReply (DeflatedTokenWriter F)
  | .literal offset len => do
    let bytes ← slice data offset (offset + len)
    pure (tw.sendLiteral bytes)
  | .blockMatch blockIdx offset => do
    let bytes ← slice data offset (min (addUsize offset blen) data.length)
    tw.sendBlockMatch (wrapI32 blockIdx) bytes

/-- Send the pieces of `data` as deflated tokens, and the end of the file. -/
def sendOpsDeflated (F : Flate) (data : List UInt8) (blen : ℕ) (ops : List DeltaOp) :
    Session FsReply Unit := do
  let tw ← Proc.forEach (sendOpDeflated data blen) (DeflatedTokenWriter.new F) ops
  tw.finish

/-- Send the pieces of `data` as tokens, and the end of the file. -/
def sendTokens (F : Flate) (useZlib : Bool) (data : List UInt8) (blen : ℕ)
    (ops : List DeltaOp) : Session FsReply Unit :=
  if useZlib then sendOpsDeflated F data blen ops else sendOps data ops

/-- Send the tokens and the checksum of `data`. -/
def sendData (dig : Digests) (F : Flate) (args : SenderArgs) (head : SumHead)
    (sums : List SumBuf) (data : List UInt8) : Session FsReply Unit := do
  let ops ← findMatchesSeeded dig data (BlockHashTable.build head sums)
    (asUsize head.s2length) (asU32 args.checksumSeed)
  writeSumHead head
  sendTokens F args.useZlib data (asUsize head.blength) ops
  writeAll ((dig.compute data .md5 0 false).take 16)
  flushOk

/-- The counters after `data` has been sent. -/
def sent (s : Sender) (data : List UInt8) : Sender :=
  { s with stats.totalWritten := wrapI64 (s.stats.totalWritten + data.length),
           stats.xferredFiles := wrapI64 (s.stats.xferredFiles + 1) }

/-- Send the file with the index `ndx`, or what stands for a file that cannot be sent. -/
def sendFile (dig : Digests) (F : Flate) (args : SenderArgs) (s : Sender) (ndx : ℤ)
    (head : SumHead) (sums : List SumBuf) : Session FsReply Sender :=
  match args.flist.getByNdx ndx with
  | none => do
    sendSkippedXfer head
    pure s
  | some fi =>
    if ¬ fi.isRegular then do
      sendSkippedXfer head
      pure s
    else do
      match ← Fs.readFile (args.baseDir.join fi.path) with
      | .error _ =>
        sendSkippedXfer head
        pure s
      | .ok data =>
        sendData dig F args head sums data
        pure (s.sent data)

/-- Answer the mark that ends a phase. -/
def endPhase (args : SenderArgs) (s : Sender) : Session FsReply (Sender ⊕ Sender) :=
  if maxPhase args.protocol < s.phase + 1 then
    pure (.inr { s with phase := s.phase + 1 })
  else do
    let tx ← writeIndex args.protocol s.tx ndxDone
    flushOk
    pure (.inl { s with phase := s.phase + 1, tx := tx })

/-- Answer a request for the file with the index `ndx`. -/
def answerRequest (dig : Digests) (F : Flate) (args : SenderArgs) (s : Sender) (ndx : ℤ) :
    Session FsReply Sender := do
  let iflags ← readIflags args.protocol
  let fields ← readItemFields iflags
  let tx ← writeIndex args.protocol s.tx ndx
  writeIflags args.protocol iflags
  writeItemFields iflags fields
  let s := { s with tx := tx }
  if iflags &&& itemTransfer = 0 then
    flushOk
    pure s
  else
    let head ← readSumHead
    let sums ← readSumBufs head
    sendFile dig F args s ndx head sums

/-- One round of the loop over requests. -/
def round (dig : Digests) (F : Flate) (args : SenderArgs) (s : Sender) :
    Session FsReply (Sender ⊕ Sender) := do
  let (ndx, rx) ← readIndex args.protocol s.rx
  if ndx = ndxDone then
    endPhase args { s with rx := rx }
  else
    let s ← answerRequest dig F args { s with rx := rx } ndx
    pure (.inl s)

/-- Answer requests until the receiver has ended all phases. -/
def run (dig : Digests) (F : Flate) (args : SenderArgs) (s : Sender) : Session FsReply Sender := do
  let s ← Proc.loop (round dig F args) s
  let tx ← writeIndex args.protocol s.tx ndxDone
  flushOk
  pure { s with tx := tx }

end Sender
