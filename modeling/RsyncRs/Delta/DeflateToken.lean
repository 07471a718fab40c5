import RsyncRs.Delta.Flate
import RsyncRs.Delta.Token

/-!
# Deflated tokens

Literal bytes are compressed, and consecutive blocks are sent as runs. Both ends feed the
bytes of the blocks to their deflate streams, so that the streams have the same history.

* `0x00` ends the file.
* `0x20` and `0x21` start a token or a run of tokens with an absolute index.
* `0x40` to `0x7f` start a frame of compressed data.
* `0x80` to `0xbf` and `0xc0` to `0xff` start a token or a run of tokens with an index that is
  relative to the end of the last run.
-/

variable {X : Type} {Reply : X → Type}

/-- End of the file. -/
def endFlag : UInt8 := 0x00

/-- A token with an absolute index. -/
def tokenLong : UInt8 := 0x20

/-- A run of tokens with an absolute index. -/
def tokenrunLong : UInt8 := 0x21

/-- Compressed data. -/
def deflatedData : UInt8 := 0x40

/-- A token with a relative index. -/
def tokenRel : UInt8 := 0x80

/-- A run of tokens with a relative index. -/
def tokenrunRel : UInt8 := 0xC0

/-- The largest number of bytes in a frame. -/
def maxDataCount : ℕ := 16383

/-! ### Writer -/

/-- State of the run encoder. -/
structure RunState where
  /-- The last block sent. -/
  lastToken : ℤ := -1
  /-- The first block of the run. -/
  runStart : ℤ := 0
  /-- The last block of the run before. -/
  lastRunEnd : ℤ := 0
  /-- A run has been started and not yet closed. -/
  runOpen : Bool := false
deriving DecidableEq, Repr

/-- State of the writer. -/
structure DeflatedTokenWriter (F : Flate) where
  /-- The deflate stream. -/
  deflate : F.Compress
  /-- Literal bytes that are not yet flushed. -/
  pendingIn : List UInt8 := []
  /-- There are literal bytes that are not yet flushed. -/
  haveUnflushedInput : Bool := false
  /-- The run encoder. -/
  run : RunState := {}

namespace DeflatedTokenWriter

variable {F : Flate}

/-- A fresh writer. -/
def new (F : Flate) : DeflatedTokenWriter F :=
  { deflate := F.newCompress }

/-- Buffer literal bytes. -/
def sendLiteral (tw : DeflatedTokenWriter F) (data : List UInt8) : DeflatedTokenWriter F :=
  if data = [] then
    tw
  else
    { tw with pendingIn := tw.pendingIn ++ data, haveUnflushedInput := true }

/-- Send the current run. -/
def closeRun (run : RunState) : Session Reply RunState := do
  let r := wrapI32 (run.runStart - run.lastRunEnd)
  let n := wrapI32 (run.lastToken - run.runStart)
  if 0 ≤ r ∧ r ≤ 63 then
    writeAll [(if n = 0 then tokenRel else tokenrunRel) + UInt8.ofNat r.toNat]
  else
    writeAll [if n = 0 then tokenLong else tokenrunLong]
    writeInt run.runStart
  if n ≠ 0 then
    writeAll (leBytes 2 n)
  pure { run with lastRunEnd := run.lastToken, runOpen := false }

/-- Add a block to the current run, or close the run and start a new one. -/
def emitToken (run : RunState) (token : ℤ) : Session Reply RunState :=
  if run.lastToken = -1 then
    pure { run with runStart := token, lastToken := token, runOpen := true }
  else if token = wrapI32 (run.lastToken + 1) ∧ token < wrapI32 (run.runStart + 65536) then
    pure { run with lastToken := token }
  else do
    let run ← closeRun run
    pure { run with runStart := token, lastToken := token, runOpen := true }

/-- Put pending input through the compressor: the state, the input left, and the output. -/
def drainStep (F : Flate) (s : F.Compress × List UInt8 × List UInt8) :
    Session Reply
      ((F.Compress × List UInt8 × List UInt8) ⊕ (F.Compress × List UInt8)) := do
  let (deflate, input, out) := s
  if input = [] then
    pure (.inr (deflate, out))
  else
    match F.compress deflate input 4096 .none with
    | .error e => throw (.other s!"deflate compress failed: {e}")
    | .ok r =>
      if r.bufError ∧ r.consumed = 0 ∧ r.out = [] then
        throw (.other "deflate stalled")
      else
        pure (.inl (r.state, input.drop r.consumed, out ++ r.out))

/-- Write frames of compressed data. -/
def writeFrames (out : List UInt8) : Session Reply Unit :=
  if out = [] then
    pure ()
  else do
    let n := min out.length maxDataCount
    writeAll [deflatedData + UInt8.ofNat (n / 256), UInt8.ofNat (n % 256)]
    writeAll (out.take n)
    writeFrames (out.drop n)
termination_by out.length
decreasing_by
  have h : 0 < out.length := List.length_pos_iff.mpr ‹_›
  rw [List.length_drop]
  unfold maxDataCount
  omega

/-- Flush the pending literal bytes, without the end of the flush. -/
def flushPendingLiteral (tw : DeflatedTokenWriter F) :
    Session Reply (DeflatedTokenWriter F) :=
  if ¬ tw.haveUnflushedInput then
    pure tw
  else do
    let run ← if tw.run.runOpen then closeRun tw.run else pure tw.run
    let (deflate, out) ← Proc.loop (drainStep F) (tw.deflate, tw.pendingIn, [])
    match F.compress deflate [] (out.length + tw.pendingIn.length + 256) .sync with
    | .error e => throw (.other s!"deflate sync flush failed: {e}")
    | .ok r =>
      let out := out ++ r.out
      if 4 ≤ out.length ∧ out.drop (out.length - 4) = syncTrailer then
        writeFrames (out.take (out.length - 4))
        pure { tw with deflate := r.state, pendingIn := [], haveUnflushedInput := false,
                       run := run }
      else
        throw (.other s!"deflate sync-flush did not end with 00 00 ff ff (len={out.length})")

/-- Put the bytes of a block through the compressor: the state and the bytes left. -/
def feedStep (F : Flate) (s : F.Compress × List UInt8) :
    Session Reply ((F.Compress × List UInt8) ⊕ F.Compress) := do
  let (deflate, input) := s
  if input = [] then
    pure (.inr deflate)
  else
    match F.compress deflate input 65536 .none with
    | .error e => throw (.other s!"deflate dict-feed failed: {e}")
    | .ok r =>
      if r.consumed = 0 ∧ r.out = [] then
        throw (.other "deflate dict-feed stalled")
      else
        pure (.inl (r.state, input.drop r.consumed))

/-- Put the bytes of a block through the compressor and drop what it puts out. -/
def feedDictBytes (deflate : F.Compress) (bytes : List UInt8) : Session Reply F.Compress := do
  let deflate ← Proc.loop (feedStep F) (deflate, bytes)
  match F.compress deflate [] (bytes.length + 256) .sync with
  | .error e => throw (.other s!"deflate dict-sync drain failed: {e}")
  | .ok r => pure r.state

/-- Send a reference to a block, with the bytes of the block. -/
def sendBlockMatch (tw : DeflatedTokenWriter F) (blockIdx : ℤ) (blockBytes : List UInt8) :
    Session Reply (DeflatedTokenWriter F) := do
  let tw ← flushPendingLiteral tw
  let run ← emitToken tw.run blockIdx
  let deflate ← feedDictBytes tw.deflate blockBytes
  pure { tw with deflate := deflate, run := run }

/-- Send what is pending and the end of the file. -/
def finish (tw : DeflatedTokenWriter F) : Session Reply Unit := do
  let run ← if tw.run.runOpen then closeRun tw.run else pure tw.run
  let _ ← flushPendingLiteral { tw with run := run }
  writeAll [endFlag]

end DeflatedTokenWriter

/-! ### Reader -/

/-- What the reader is doing. -/
inductive RxState where
  | init
  | idle
  | inflating
  | inflated
  | running
deriving DecidableEq, Repr

/-- State of the reader. -/
structure DeflatedTokenReader (F : Flate) where
  /-- The inflate stream. -/
  inflate : F.Decompress
  /-- What the reader is doing. -/
  state : RxState := .init
  /-- The last block. -/
  rxToken : ℤ := 0
  /-- How many blocks of the run are still to come. -/
  rxRun : ℤ := 0
  /-- A flag that has been read and not yet been acted upon. -/
  savedFlag : Option UInt8 := none
  /-- Compressed data that are not yet inflated. -/
  cbuf : List UInt8 := []

namespace DeflatedTokenReader

variable {F : Flate}

/-- A fresh reader. -/
def new (F : Flate) : DeflatedTokenReader F :=
  { inflate := F.newDecompress }

/-- Room for decompressed data. -/
def dbufLen : ℕ := 65536

/-- Decompress, failing when the data are malformed. -/
def inflateStep (F : Flate) (d : F.Decompress) (input : List UInt8) (flush : FlushDecompress) :
    Except Error (FlateStep F.Decompress) :=
  match F.decompress d input dbufLen flush with
  | .error e => throw (.other e)
  | .ok r => pure r

/-- Act upon a flag that is not one of compressed data. -/
def decodeFlag (tr : DeflatedTokenReader F) (flag : UInt8) :
    Session Reply (Option Token × DeflatedTokenReader F) :=
  if flag = endFlag then
    pure (none, { tr with state := .init })
  else do
    let (rxToken, f) ← if flag &&& tokenRel ≠ 0 then
        pure (wrapI32 (tr.rxToken + (flag &&& 0x3f).toNat), flag >>> 6)
      else do
        let t ← readInt
        if t < 0 then
          throw (.other "invalid token in compressed stream")
        else
          pure (t, flag)
    if f &&& 1 ≠ 0 then
      let bb ← readBytes 2
      pure (some (.blockMatch rxToken),
        { tr with rxToken := rxToken, rxRun := ofLeBytes bb, state := .running })
    else
      pure (some (.blockMatch rxToken), { tr with rxToken := rxToken })

/-- Act upon a flag, when the reader waited for one. -/
def handleFlag (tr : DeflatedTokenReader F) (flag : UInt8) :
    Session Reply
      (DeflatedTokenReader F ⊕ Option Token × DeflatedTokenReader F) := do
  if flag &&& 0xC0 = deflatedData then
    let lo ← readByte
    let cbuf ← readBytes (ofLeBytes [lo, flag &&& 0x3f])
    pure (.inl { tr with cbuf := cbuf, state := .inflating })
  else if tr.state = .inflated then
    let r ← inflateStep F tr.inflate [] .sync
    if r.out ≠ [] then
      pure (.inr (some (.literal r.out), { tr with inflate := r.state, savedFlag := some flag }))
    else
      let r ← inflateStep F r.state syncTrailer .sync
      if r.consumed ≠ 4 then
        throw (.other s!"synthetic trailer not consumed (consumed={r.consumed})")
      else
        let res ←
          decodeFlag { tr with inflate := r.state, cbuf := syncTrailer, state := .idle } flag
        pure (.inr res)
  else
    let res ← decodeFlag tr flag
    pure (.inr res)

/-- One round of reading a token. -/
def step (tr : DeflatedTokenReader F) :
    Session Reply
      (DeflatedTokenReader F ⊕ Option Token × DeflatedTokenReader F) :=
  match tr.state with
  | .init => pure (.inl { tr with state := .idle, rxToken := 0 })
  | .idle | .inflated =>
    match tr.savedFlag with
    | some flag => handleFlag { tr with savedFlag := none } flag
    | none => do
      let flag ← readByte
      handleFlag tr flag
  | .inflating => do
    let r ← inflateStep F tr.inflate tr.cbuf .none
    let cbuf := tr.cbuf.drop r.consumed
    let tr := { tr with inflate := r.state, cbuf := cbuf,
                        state := if cbuf = [] then .inflated else .inflating }
    if r.out ≠ [] then
      pure (.inr (some (.literal r.out), tr))
    else
      pure (.inl tr)
  | .running =>
    let rxToken := wrapI32 (tr.rxToken + 1)
    let rxRun := wrapI32 (tr.rxRun - 1)
    pure (.inr (some (.blockMatch rxToken),
      { tr with rxToken := rxToken, rxRun := rxRun,
                state := if rxRun = 0 then .idle else .running }))

/-- Read one token. -/
def readToken (tr : DeflatedTokenReader F) :
    Session Reply (Option Token × DeflatedTokenReader F) :=
  Proc.loop step tr

/-- Feed the rest of a stored block. -/
def seeChunk (F : Flate) (d : F.Decompress) (chunk : List UInt8) : Except Error F.Decompress :=
  if _h : chunk = [] then
    pure d
  else do
    let r ← inflateStep F d chunk .sync
    if _hc : r.consumed = 0 then
      throw (.other "see_block: inflate stalled")
    else
      seeChunk F r.state (chunk.drop r.consumed)
termination_by chunk.length
decreasing_by
  have hpos : 0 < chunk.length := List.length_pos_iff.mpr ‹_›
  rw [List.length_drop]
  omega

/-- Feed the bytes of a block as stored blocks. -/
def seeBytes (F : Flate) (d : F.Decompress) (bytes : List UInt8) : Except Error F.Decompress :=
  if _h : bytes = [] then
    pure d
  else do
    let blklen := min bytes.length 65535
    let r ← inflateStep F d (storedHeader blklen) .sync
    if r.consumed ≠ 5 then
      throw (.other s!"see_block: header not fully consumed ({r.consumed} of 5)")
    else
      let d ← seeChunk F r.state (bytes.take blklen)
      seeBytes F d (bytes.drop blklen)
termination_by bytes.length
decreasing_by
  have hpos : 0 < bytes.length := List.length_pos_iff.mpr ‹_›
  rw [List.length_drop]
  omega

/-- Feed the bytes of a block to the inflate stream. -/
def seeBlock (tr : DeflatedTokenReader F) (bytes : List UInt8) :
    Except Error (DeflatedTokenReader F) := do
  let inflate ← seeBytes F tr.inflate bytes
  pure { tr with inflate := inflate }

end DeflatedTokenReader
