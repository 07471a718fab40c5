import RsyncRs.Delta.DeflateToken

/-!
# What the writer of deflated tokens sends

The bytes that a sequence of calls puts on the wire are those of a list of pieces, which
depends on the calls only: frames of compressed literals, runs of blocks, and the end of the
file. How literals are compressed is left to the deflate stream.
-/

variable {X : Type} {Reply : X → Type} {H : Type}
  {answer : H → (x : X) → Option (Reply x × H)}

/-! ### Calls -/

/-- A call to the writer. -/
inductive DeflateCall where
  /-- Send literal bytes. -/
  | literal (data : List UInt8)
  /-- Send a reference to a block, with the bytes of the block. -/
  | blockMatch (idx : ℤ) (bytes : List UInt8)
deriving DecidableEq, Repr

/-- The bytes and the block of a call. -/
def DeflateCall.items : DeflateCall → List (UInt8 ⊕ ℤ)
  | .literal data => data.map .inl
  | .blockMatch idx _ => [.inr idx]

/-- The bytes and the blocks of a sequence of calls in order. -/
def callItems (calls : List DeflateCall) : List (UInt8 ⊕ ℤ) :=
  calls.flatMap DeflateCall.items

/-- The bytes of the blocks of a sequence of calls. -/
def callBlocks : List DeflateCall → List (List UInt8)
  | [] => []
  | .literal _ :: calls => callBlocks calls
  | .blockMatch _ bytes :: calls => bytes :: callBlocks calls

@[simp]
theorem callItems_nil :
  callItems [] = []
  := rfl

@[simp]
theorem callItems_literal
    (data : List UInt8) (calls : List DeflateCall) :
  callItems (.literal data :: calls) = data.map .inl ++ callItems calls
  := rfl

@[simp]
theorem callItems_blockMatch
    (idx : ℤ) (bytes : List UInt8) (calls : List DeflateCall) :
  callItems (.blockMatch idx bytes :: calls) = .inr idx :: callItems calls
  := rfl

theorem callBlocks_append
    (calls calls' : List DeflateCall) :
  callBlocks (calls ++ calls') = callBlocks calls ++ callBlocks calls'
  := by
  induction calls with
  | nil => rfl
  | cons call calls ih => cases call <;> simp [callBlocks, ih]

namespace DeflatedTokenWriter

variable {F : Flate}

/-- Make one call. -/
def send (tw : DeflatedTokenWriter F) :
    DeflateCall → Session Reply (DeflatedTokenWriter F)
  | .literal data => pure (tw.sendLiteral data)
  | .blockMatch idx bytes => tw.sendBlockMatch idx bytes

/-- Make the calls and end the file. -/
def sendCalls (tw : DeflatedTokenWriter F) (calls : List DeflateCall) : Session Reply Unit := do
  let tw ← Proc.forEach send tw calls
  tw.finish

end DeflatedTokenWriter

/-! ### Pieces -/

/-- The run is closed. -/
def RunState.closed (run : RunState) : RunState :=
  { run with lastRunEnd := run.lastToken, runOpen := false }

/-- A run is started with `token`. -/
def RunState.started (run : RunState) (token : ℤ) : RunState :=
  { run with runStart := token, lastToken := token, runOpen := true }

/-- The bytes of a run. -/
def RunState.bytes (run : RunState) : List UInt8 :=
  let r := wrapI32 (run.runStart - run.lastRunEnd)
  let n := wrapI32 (run.lastToken - run.runStart)
  (if 0 ≤ r ∧ r ≤ 63 then
    [(if n = 0 then tokenRel else tokenrunRel) + UInt8.ofNat r.toNat]
  else
    (if n = 0 then tokenLong else tokenrunLong) :: leBytes 4 run.runStart) ++
  if n = 0 then [] else leBytes 2 n

/-- A piece of what is sent. -/
inductive Piece where
  /-- Compressed literal bytes. -/
  | literal (data : List UInt8)
  /-- A run of blocks. -/
  | run (run : RunState)
  /-- The bytes of a block, which go through the deflate stream and not onto the wire. -/
  | block (bytes : List UInt8)
  /-- The end of the file. -/
  | eof
deriving DecidableEq, Repr

/-- The blocks from `first` on. -/
def blocksFrom (first : ℤ) : ℕ → List ℤ
  | 0 => []
  | n + 1 => first :: blocksFrom (first + 1) n

namespace RunState

/-- The number of blocks of the run. -/
def count (run : RunState) : ℕ :=
  (run.lastToken - run.runStart + 1).toNat

/-- The blocks of the run. -/
def blocks (run : RunState) : List ℤ :=
  blocksFrom run.runStart run.count

/-- The blocks of the run have indices that are not negative, with successors in 32 bits, and
their number fits two bytes. -/
structure Valid (run : RunState) : Prop where
  start_nonneg : 0 ≤ run.runStart
  start_le : run.runStart ≤ run.lastToken
  last_lt : run.lastToken < 2147483647
  short : run.lastToken < run.runStart + 65536
  end_nonneg : 0 ≤ run.lastRunEnd
  end_lt : run.lastRunEnd < 2147483647

/-- The current run, if one is open. -/
def openPieces (run : RunState) : List Piece :=
  if run.runOpen then [.run run] else []

/-- The state after the current run, if one is open, has been closed. -/
def flushed (run : RunState) : RunState :=
  if run.runOpen then run.closed else run

/-- The run goes on with `token`. -/
def Continues (run : RunState) (token : ℤ) : Prop :=
  token = wrapI32 (run.lastToken + 1) ∧ token < wrapI32 (run.runStart + 65536)

instance (run : RunState) (token : ℤ) : Decidable (run.Continues token) :=
  inferInstanceAs (Decidable (_ ∧ _))

/-- What a block adds to what is sent. -/
def tokenPieces (run : RunState) (token : ℤ) : List Piece :=
  if run.lastToken = -1 ∨ run.Continues token then [] else [.run run]

/-- The state after a block. -/
def afterToken (run : RunState) (token : ℤ) : RunState :=
  if run.lastToken = -1 then run.started token
  else if run.Continues token then { run with lastToken := token }
  else run.closed.started token

end RunState

/-- What the pending literal bytes add to what is sent. -/
def literalPieces (pending : List UInt8) : List Piece :=
  if pending = [] then [] else [.literal pending]

/-- The pieces that calls send, from the given run and pending literal bytes on. -/
def pieces (run : RunState) (pending : List UInt8) : List DeflateCall → List Piece
  | [] => run.openPieces ++ (literalPieces pending ++ [.eof])
  | .literal data :: calls => pieces run (pending ++ data) calls
  | .blockMatch idx bytes :: calls =>
    if pending = [] then
      run.tokenPieces idx ++ .block bytes :: pieces (run.afterToken idx) [] calls
    else
      run.openPieces ++ .literal pending :: (run.flushed.tokenPieces idx ++
        .block bytes :: pieces (run.flushed.afterToken idx) [] calls)

/-- The bytes of the blocks among the pieces. -/
def pieceBlocks : List Piece → List (List UInt8)
  | [] => []
  | .literal _ :: ps => pieceBlocks ps
  | .run _ :: ps => pieceBlocks ps
  | .block bytes :: ps => bytes :: pieceBlocks ps
  | .eof :: ps => pieceBlocks ps

/-- The bytes of frames of compressed data. -/
def frameBytes (out : List UInt8) : List UInt8 :=
  if out = [] then
    []
  else
    let n := min out.length maxDataCount
    [deflatedData + UInt8.ofNat (n / 256), UInt8.ofNat (n % 256)] ++
      (out.take n ++ frameBytes (out.drop n))
termination_by out.length
decreasing_by
  have h : 0 < out.length := List.length_pos_iff.mpr ‹_›
  rw [List.length_drop]
  unfold maxDataCount
  omega

/-- The bytes `wire` are the given pieces, when the deflate stream has taken `hist`. -/
inductive Wire {F : Flate} (L : F.Laws) : List UInt8 → List Piece → List UInt8 → Prop where
  | nil {hist : List UInt8} : Wire L hist [] []
  | literal {hist data body : List UInt8} {ps : List Piece} {wire : List UInt8}
      (hne : data ≠ []) (hseg : IsSegment L.plain L.Boundary hist data body)
      (h : Wire L (hist ++ data) ps wire) :
      Wire L hist (.literal data :: ps) (frameBytes body ++ wire)
  | run {hist : List UInt8} {run : RunState} {ps : List Piece} {wire : List UInt8}
      (h : Wire L hist ps wire) : Wire L hist (.run run :: ps) (run.bytes ++ wire)
  | block {hist bytes : List UInt8} {ps : List Piece} {wire : List UInt8}
      (h : Wire L (hist ++ bytes) ps wire) : Wire L hist (.block bytes :: ps) wire
  | eof {hist : List UInt8} {ps : List Piece} {wire : List UInt8}
      (h : Wire L hist ps wire) : Wire L hist (.eof :: ps) (endFlag :: wire)

/-! ### The run encoder -/

theorem writes_closeRun
    (run : RunState) :
  Proc.Writes answer (DeflatedTokenWriter.closeRun run : Session Reply RunState) run.bytes
    run.closed
  := by
  have htail : ∀ n : ℤ, Proc.Writes answer
      (do
        if n ≠ 0 then
          writeAll (leBytes 2 n)
        pure run.closed : Session Reply RunState)
      (if n = 0 then [] else leBytes 2 n) run.closed := by
    intro n
    by_cases hn : n = 0
    · simp only [hn, ne_eq, not_true_eq_false, if_false, if_true]
      apply Proc.writes_pure
    · simp only [hn, ne_eq, not_false_eq_true, if_true, if_false]
      apply (writes_writeAll _).map
  unfold DeflatedTokenWriter.closeRun RunState.bytes
  dsimp only
  by_cases hr : 0 ≤ wrapI32 (run.runStart - run.lastRunEnd) ∧
      wrapI32 (run.runStart - run.lastRunEnd) ≤ 63
  · simp only [hr, and_self, if_true]
    apply (writes_writeAll _).bind (htail _)
  · simp only [hr, if_false]
    apply (writes_writeAll [_]).bind
    apply (writes_writeInt _).bind (htail _)

theorem writes_emitToken
    (run : RunState) (token : ℤ) :
  Proc.Writes answer (DeflatedTokenWriter.emitToken run token : Session Reply RunState)
    (if run.lastToken = -1 ∨ run.Continues token then [] else run.bytes)
    (run.afterToken token)
  := by
  unfold DeflatedTokenWriter.emitToken RunState.afterToken
  by_cases hinit : run.lastToken = -1
  · simp only [hinit, if_true, true_or]
    apply Proc.writes_pure
  · by_cases hcont : run.Continues token
    · simp only [hinit, hcont, if_true, if_false, or_true]
      rw [if_pos (And.intro hcont.1 hcont.2)]
      apply Proc.writes_pure
    · simp only [hinit, hcont, if_false, or_self]
      rw [if_neg (show ¬(_ ∧ _) from hcont)]
      apply (writes_closeRun run).map

/-! ### The deflate stream -/

theorem writes_writeFrames
    (out : List UInt8) :
  Proc.Writes answer (DeflatedTokenWriter.writeFrames out : Session Reply Unit)
    (frameBytes out) ()
  := by
  induction hn : out.length using Nat.strong_induction_on generalizing out with
  | h n ih =>
      rw [DeflatedTokenWriter.writeFrames, frameBytes]
      by_cases he : out = []
      · rw [if_pos he, if_pos he]
        apply Proc.writes_pure
      · have hpos : 0 < out.length := List.length_pos_iff.mpr he
        have hshort : (out.drop (min out.length maxDataCount)).length < n := by
          rw [List.length_drop]
          unfold maxDataCount
          omega
        rw [if_neg he, if_neg he]
        apply (writes_writeAll _).bind
        apply (writes_writeAll _).bind
        apply ih _ hshort _ rfl

variable {F : Flate} (L : F.Laws)

/-- The compressor takes all of its input. -/
theorem writes_drain
    (answer : H → (x : X) → Option (Reply x × H)) {deflate : F.Compress}
    {hist cur out : List UInt8} (h : L.Flushed deflate hist cur out) (input : List UInt8) :
  ∃ deflate' out', Proc.Writes answer
      (Proc.loop (DeflatedTokenWriter.drainStep F) (deflate, input, out) :
        Session Reply (F.Compress × List UInt8)) [] (deflate', out') ∧
    L.Flushed deflate' hist (cur ++ input) out'
  := by
  refine L.takes_all 4096 (by decide)
    (motive := fun c x cur out => ∃ deflate' out', Proc.Writes answer
      (Proc.loop (DeflatedTokenWriter.drainStep F) (c, x, out) :
        Session Reply (F.Compress × List UInt8)) [] (deflate', out') ∧
      L.Flushed deflate' hist (cur ++ x) out') ?nil ?call h
  case nil =>
    intro c cur out hc
    use c, out
    rw [List.append_nil]
    refine ⟨?_, hc⟩
    apply Proc.writes_loop_done
    apply Proc.writes_pure
  case call =>
    rintro c x cur out r hx hr hprog ⟨d, o, hw, hf⟩
    use d, o
    rw [List.append_assoc, List.take_append_drop] at hf
    refine ⟨?_, hf⟩
    have hno : ¬(r.bufError ∧ r.consumed = 0 ∧ r.out = []) := by
      rintro ⟨-, h0, hnil⟩
      rcases hprog with hprog | hprog
      · omega
      · apply hprog hnil
    have hround : Proc.Writes answer
        (DeflatedTokenWriter.drainStep F (c, x, out) : Session Reply _) []
        (.inl (r.state, x.drop r.consumed, out ++ r.out)) := by
      simp only [DeflatedTokenWriter.drainStep, if_neg hx, hr, if_neg hno]
      apply Proc.writes_pure
    apply Proc.writes_loop_again hround hw

/-- The compressor takes all bytes of a block. -/
theorem writes_feed
    (answer : H → (x : X) → Option (Reply x × H)) {deflate : F.Compress}
    {hist cur out : List UInt8} (h : L.Flushed deflate hist cur out) (input : List UInt8) :
  ∃ deflate' out', Proc.Writes answer
      (Proc.loop (DeflatedTokenWriter.feedStep F) (deflate, input) : Session Reply F.Compress)
      [] deflate' ∧
    L.Flushed deflate' hist (cur ++ input) out'
  := by
  refine L.takes_all 65536 (by decide)
    (motive := fun c x cur _ => ∃ deflate' out', Proc.Writes answer
      (Proc.loop (DeflatedTokenWriter.feedStep F) (c, x) : Session Reply F.Compress)
      [] deflate' ∧ L.Flushed deflate' hist (cur ++ x) out') ?nil ?call h
  case nil =>
    intro c cur out hc
    use c, out
    rw [List.append_nil]
    refine ⟨?_, hc⟩
    apply Proc.writes_loop_done
    apply Proc.writes_pure
  case call =>
    rintro c x cur out r hx hr hprog ⟨d, o, hw, hf⟩
    use d, o
    rw [List.append_assoc, List.take_append_drop] at hf
    refine ⟨?_, hf⟩
    have hno : ¬(r.consumed = 0 ∧ r.out = []) := by
      rintro ⟨h0, hnil⟩
      rcases hprog with hprog | hprog
      · omega
      · apply hprog hnil
    have hround : Proc.Writes answer
        (DeflatedTokenWriter.feedStep F (c, x) : Session Reply _) []
        (.inl (r.state, x.drop r.consumed)) := by
      simp only [DeflatedTokenWriter.feedStep, if_neg hx, hr, if_neg hno]
      apply Proc.writes_pure
    apply Proc.writes_loop_again hround hw

/-- The bytes of a block go through the deflate stream and nothing is sent. -/
theorem writes_feedDictBytes
    (answer : H → (x : X) → Option (Reply x × H)) {deflate : F.Compress} {hist : List UInt8}
    (bytes : List UInt8) (h : L.Flushed deflate hist [] []) :
  ∃ deflate', Proc.Writes answer
      (DeflatedTokenWriter.feedDictBytes deflate bytes : Session Reply F.Compress) [] deflate' ∧
    L.Flushed deflate' (hist ++ bytes) [] []
  := by
  obtain ⟨d, out, hw, hf⟩ := writes_feed L answer h bytes
  rw [List.nil_append] at hf
  obtain ⟨r, hr, hf', -⟩ := L.compress_sync hf (le_refl (bytes.length + 256))
  use r.state
  refine ⟨?_, hf'⟩
  unfold DeflatedTokenWriter.feedDictBytes
  refine hw.bind ?_
  rw [hr]
  apply Proc.writes_pure

/-- The writer holds `pendingIn` back and its deflate stream has taken `hist`. -/
structure DeflatedTokenWriter.Holds (tw : DeflatedTokenWriter F) (hist : List UInt8) :
    Prop where
  flushed : L.Flushed tw.deflate hist [] []
  unflushed : tw.haveUnflushedInput = true ↔ tw.pendingIn ≠ []

/-- Flushing literal bytes closes the current run and sends a segment for them. -/
theorem writes_flushPendingLiteral
    (answer : H → (x : X) → Option (Reply x × H)) {tw : DeflatedTokenWriter F}
    {hist : List UInt8} (h : tw.Holds L hist) (hne : tw.pendingIn ≠ []) :
  ∃ body deflate, Proc.Writes answer
      (tw.flushPendingLiteral : Session Reply (DeflatedTokenWriter F))
      ((if tw.run.runOpen then tw.run.bytes else []) ++ frameBytes body)
      { tw with deflate := deflate, pendingIn := [], haveUnflushedInput := false,
                run := tw.run.flushed } ∧
    IsSegment L.plain L.Boundary hist tw.pendingIn body ∧
    L.Flushed deflate (hist ++ tw.pendingIn) [] []
  := by
  obtain ⟨d, out, hw, hf⟩ := writes_drain L answer h.flushed tw.pendingIn
  rw [List.nil_append] at hf
  have hcap : tw.pendingIn.length + 256 ≤ out.length + tw.pendingIn.length + 256 := by omega
  obtain ⟨r, hr, hf', hseg⟩ := L.compress_sync hf hcap
  obtain ⟨body, hbody, hseg⟩ := hseg hne
  use body, r.state
  refine ⟨?_, hseg, hf'⟩
  have hend : 4 ≤ (body ++ syncTrailer).length ∧
      (body ++ syncTrailer).drop ((body ++ syncTrailer).length - 4) = syncTrailer := by
    have hlen : (body ++ syncTrailer).length - 4 = body.length := by simp [syncTrailer]
    rw [hlen, List.drop_left]
    simp [syncTrailer]
  have htake : (body ++ syncTrailer).take ((body ++ syncTrailer).length - 4) = body := by
    have hlen : (body ++ syncTrailer).length - 4 = body.length := by simp [syncTrailer]
    rw [hlen, List.take_left]
  unfold DeflatedTokenWriter.flushPendingLiteral RunState.flushed
  rw [if_neg (not_not.mpr (h.unflushed.mpr hne))]
  by_cases hopen : tw.run.runOpen = true
  on_goal 1 =>
    rw [if_pos hopen, if_pos hopen, if_pos hopen]
    apply (writes_closeRun tw.run).bind
  on_goal 2 =>
    rw [if_neg hopen, if_neg hopen, if_neg hopen]
    apply (Proc.writes_pure tw.run).bind
  -- What follows the end of the run is the same in both cases.
  all_goals
    rw [← List.nil_append (frameBytes body)]
    apply hw.bind
    dsimp only
    rw [hr]
    dsimp only
    rw [hbody, if_pos hend, htake]
    apply (writes_writeFrames body).map

/-! ### Sequences of calls -/

variable {L}

theorem Wire.openPieces
    {hist wire : List UInt8} {ps : List Piece} (run : RunState) (h : Wire L hist ps wire) :
  Wire L hist (run.openPieces ++ ps) ((if run.runOpen then run.bytes else []) ++ wire)
  := by
  unfold RunState.openPieces
  split
  · apply Wire.run h
  · apply h

theorem Wire.tokenPieces
    {hist wire : List UInt8} {ps : List Piece} (run : RunState) (token : ℤ)
    (h : Wire L hist ps wire) :
  Wire L hist (run.tokenPieces token ++ ps)
    ((if run.lastToken = -1 ∨ run.Continues token then [] else run.bytes) ++ wire)
  := by
  unfold RunState.tokenPieces
  split
  · apply h
  · apply Wire.run h

theorem DeflatedTokenWriter.Holds.new :
  (DeflatedTokenWriter.new F).Holds L []
  := by
  constructor
  · apply L.flushed_new
  · simp [DeflatedTokenWriter.new]

theorem DeflatedTokenWriter.Holds.sendLiteral
    {tw : DeflatedTokenWriter F} {hist : List UInt8} (h : tw.Holds L hist) (data : List UInt8) :
  (tw.sendLiteral data).Holds L hist ∧ (tw.sendLiteral data).run = tw.run ∧
    (tw.sendLiteral data).pendingIn = tw.pendingIn ++ data
  := by
  unfold DeflatedTokenWriter.sendLiteral
  by_cases hd : data = []
  · rw [if_pos hd, hd, List.append_nil]
    apply And.intro h ⟨rfl, rfl⟩
  · rw [if_neg hd]
    refine ⟨⟨h.flushed, ?_⟩, rfl, rfl⟩
    simp [hd]

/-- A writer without pending literal bytes has nothing to flush. -/
theorem writes_flushPendingLiteral_nil
    (answer : H → (x : X) → Option (Reply x × H)) {tw : DeflatedTokenWriter F}
    {hist : List UInt8} (h : tw.Holds L hist) (he : tw.pendingIn = []) :
  Proc.Writes answer (tw.flushPendingLiteral : Session Reply (DeflatedTokenWriter F)) [] tw
  := by
  have hno : ¬ tw.haveUnflushedInput = true := by
    rw [h.unflushed, he]
    apply not_not.mpr rfl
  unfold DeflatedTokenWriter.flushPendingLiteral
  rw [if_pos hno]
  apply Proc.writes_pure

/-- What follows the flush of the literal bytes when a block is sent. -/
def DeflatedTokenWriter.sendToken (idx : ℤ) (bytes : List UInt8) (tw : DeflatedTokenWriter F) :
    Session Reply (DeflatedTokenWriter F) := do
  let run ← emitToken tw.run idx
  let deflate ← feedDictBytes tw.deflate bytes
  pure { tw with deflate := deflate, run := run }

theorem writes_sendToken
    (answer : H → (x : X) → Option (Reply x × H)) {tw : DeflatedTokenWriter F}
    {hist : List UInt8} (h : tw.Holds L hist) (he : tw.pendingIn = []) (idx : ℤ)
    (bytes : List UInt8) :
  ∃ tw' : DeflatedTokenWriter F, Proc.Writes answer
      (tw.sendToken idx bytes : Session Reply (DeflatedTokenWriter F))
      (if tw.run.lastToken = -1 ∨ tw.run.Continues idx then [] else tw.run.bytes) tw' ∧
    tw'.Holds L (hist ++ bytes) ∧ tw'.run = tw.run.afterToken idx ∧ tw'.pendingIn = []
  := by
  obtain ⟨d, hw, hf⟩ := writes_feedDictBytes L answer bytes h.flushed
  use { tw with deflate := d, run := tw.run.afterToken idx }
  refine ⟨?_, ⟨hf, h.unflushed⟩, rfl, he⟩
  rw [← List.append_nil (ite _ _ _)]
  apply (writes_emitToken tw.run idx).bind
  apply hw.map fun d => ({ tw with deflate := d, run := tw.run.afterToken idx } :
    DeflatedTokenWriter F)

/-- Ending the file sends what is pending. -/
theorem writes_finish
    (answer : H → (x : X) → Option (Reply x × H)) {tw : DeflatedTokenWriter F}
    {hist : List UInt8} (h : tw.Holds L hist) :
  ∃ wire, Proc.Writes answer (tw.finish : Session Reply Unit) wire () ∧
    Wire L hist (pieces tw.run tw.pendingIn []) wire
  := by
  have hclosed : ({ tw with run := tw.run.flushed } : DeflatedTokenWriter F).Holds L hist :=
    ⟨h.flushed, h.unflushed⟩
  have hrest : ∃ wire, Proc.Writes answer
      (do
        let _ ← ({ tw with run := tw.run.flushed } : DeflatedTokenWriter F).flushPendingLiteral
        writeAll [endFlag] : Session Reply Unit) wire () ∧
      Wire L hist (literalPieces tw.pendingIn ++ [.eof]) wire := by
    by_cases he : tw.pendingIn = []
    · use [endFlag]
      constructor
      · apply (writes_flushPendingLiteral_nil answer hclosed he).bind (writes_writeAll _)
      · rw [literalPieces, if_pos he]
        apply Wire.eof Wire.nil
    · obtain ⟨body, d, hw, hseg, -⟩ := writes_flushPendingLiteral L answer hclosed he
      have hno : tw.run.flushed.runOpen = false := by
        unfold RunState.flushed RunState.closed
        split
        · rfl
        · apply Bool.eq_false_of_not_eq_true ‹_›
      rw [if_neg (by simp [hno]), List.nil_append] at hw
      use frameBytes body ++ [endFlag]
      constructor
      · apply hw.bind (writes_writeAll _)
      · rw [literalPieces, if_neg he]
        apply Wire.literal he hseg (Wire.eof Wire.nil)
  obtain ⟨wire, hw, hwire⟩ := hrest
  use (if tw.run.runOpen then tw.run.bytes else []) ++ wire
  refine ⟨?_, hwire.openPieces tw.run⟩
  unfold DeflatedTokenWriter.finish
  by_cases hopen : tw.run.runOpen = true
  · simp only [RunState.flushed, hopen, if_true] at hw ⊢
    apply (writes_closeRun tw.run).bind hw
  · simp only [RunState.flushed, hopen] at hw ⊢
    apply hw

theorem DeflatedTokenWriter.sendCalls_cons
    (tw : DeflatedTokenWriter F) (call : DeflateCall) (calls : List DeflateCall) :
  (tw.sendCalls (call :: calls) : Session Reply Unit) =
    tw.send call >>= fun tw => tw.sendCalls calls
  := bind_assoc _ _ _

/-- Sending a block sends the pending literal bytes and what the run encoder sends. -/
theorem writes_sendBlockMatch
    (answer : H → (x : X) → Option (Reply x × H)) {tw : DeflatedTokenWriter F}
    {hist : List UInt8} (h : tw.Holds L hist) (idx : ℤ) (bytes : List UInt8)
    {calls : List DeflateCall}
    (hcalls : ∀ {tw' : DeflatedTokenWriter F} {hist' : List UInt8}, tw'.Holds L hist' →
      tw'.pendingIn = [] → ∃ wire, Proc.Writes answer
        (tw'.sendCalls calls : Session Reply Unit) wire () ∧
        Wire L hist' (pieces tw'.run [] calls) wire) :
  ∃ wire, Proc.Writes answer
      (tw.sendBlockMatch idx bytes >>= fun tw => tw.sendCalls calls : Session Reply Unit)
      wire () ∧
    Wire L hist (pieces tw.run tw.pendingIn (.blockMatch idx bytes :: calls)) wire
  := by
  by_cases he : tw.pendingIn = []
  · obtain ⟨tw', hw, h', hrun, hpend⟩ := writes_sendToken answer h he idx bytes
    obtain ⟨wire, hw', hwire⟩ := hcalls h' hpend
    have hmatch := (writes_flushPendingLiteral_nil answer h he).bind
      (f := DeflatedTokenWriter.sendToken idx bytes) hw
    rw [hrun] at hwire
    rw [pieces, if_pos he]
    refine ⟨_, hmatch.bind hw', ?_⟩
    apply Wire.tokenPieces
    apply Wire.block hwire
  · obtain ⟨body, d, hflush, hseg, hf⟩ := writes_flushPendingLiteral L answer h he
    have h₁ : ({ tw with deflate := d, pendingIn := [], haveUnflushedInput := false,
                         run := tw.run.flushed } : DeflatedTokenWriter F).Holds L
        (hist ++ tw.pendingIn) := by
      apply DeflatedTokenWriter.Holds.mk hf
      simp
    obtain ⟨tw', hw, h', hrun, hpend⟩ := writes_sendToken answer h₁ rfl idx bytes
    obtain ⟨wire, hw', hwire⟩ := hcalls h' hpend
    have hmatch := hflush.bind (f := DeflatedTokenWriter.sendToken idx bytes) hw
    rw [hrun] at hwire
    rw [pieces, if_neg he]
    refine ⟨_, hmatch.bind hw', ?_⟩
    rw [List.append_assoc, List.append_assoc]
    apply Wire.openPieces
    apply Wire.literal he hseg
    apply Wire.tokenPieces
    apply Wire.block hwire

/-- Every sequence of calls is sent as its pieces. -/
theorem writes_sendCalls
    (answer : H → (x : X) → Option (Reply x × H)) {tw : DeflatedTokenWriter F}
    {hist : List UInt8} (h : tw.Holds L hist) (calls : List DeflateCall) :
  ∃ wire, Proc.Writes answer (tw.sendCalls calls : Session Reply Unit) wire () ∧
    Wire L hist (pieces tw.run tw.pendingIn calls) wire
  := by
  induction calls generalizing tw hist with
  | nil => apply writes_finish answer h
  | cons call calls ih =>
      rw [DeflatedTokenWriter.sendCalls_cons]
      cases call with
      | literal data =>
          obtain ⟨h', hrun, hpend⟩ := h.sendLiteral data
          obtain ⟨wire, hw, hwire⟩ := ih h'
          rw [hrun, hpend] at hwire
          use wire
          apply And.intro hw hwire
      | blockMatch idx bytes =>
          apply writes_sendBlockMatch answer h
          intro tw' hist' h' hpend
          rw [← hpend]
          apply ih h'
